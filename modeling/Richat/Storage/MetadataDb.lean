import Richat.Lib.BigEndian
import Richat.Lib.Protobuf
import Richat.Storage.Node

/-!
# The metadata database

The catalog is a mirror of a database with four column families: `state`, and one row by number for every
slot, segment and chunk. Each commit is one batch of rows and a change of the mirror, and a process that
starts loads the mirror from the rows.

`RocksDb` is what is used of the library: the rows of a column family by their keys, an iterator over them,
and a batch, which is written as a whole.
-/

namespace Richat

open Lib Lib.Protobuf

/-! ### The library -/

inductive Column where
  | state
  | slots
  | segments
  | chunks
  deriving DecidableEq

inductive BatchOp where
  | put (column : Column) (key value : Bytes)
  | delete (column : Column) (key : Bytes)

/-- The row after an operation of a batch. -/
def BatchOp.row (column : Column) (key : Bytes) (row : Option Bytes) : BatchOp → Option Bytes
  | put c k value => if c = column ∧ k = key then some value else row
  | delete c k => if c = column ∧ k = key then none else row

/-- A database with these column families. -/
structure RocksDb where
  Db : Type
  /-- a database that did not exist -/
  create : Db
  get : Db → Column → Bytes → Option Bytes
  iterator : Db → Column → List (Bytes × Bytes)
  writeBatch : Db → List BatchOp → Db
  get_create : ∀ column key, get create column key = none
  get_writeBatch : ∀ db batch column key,
    get (writeBatch db batch) column key = batch.foldl (BatchOp.row column key) (get db column key)
  /-- an iterator comes to every row once -/
  iterator_nodup : ∀ db column, ((iterator db column).map Prod.fst).Nodup
  mem_iterator : ∀ db column key value,
    (key, value) ∈ iterator db column ↔ get db column key = some value

/-! ### The rows -/

inductive MetadataError where
  /-- "unexpected eof while decoding" a number of some bytes -/
  | unexpectedEof (width : ℕ)
  | invalidBool (value : ℕ)
  | unsupportedFormatVersion (version : ℕ)
  | invalidKeyLength
  deriving DecidableEq

/-- `take_u8`, `take_u16`, `take_u32` and `take_u64`, by their widths. -/
def takeNumber (width : ℕ) (value : Bytes) : Except MetadataError (ℕ × Bytes) :=
  match takeBe width value with
  | some read => .ok read
  | none => .error (.unexpectedEof width)

def takeBool (value : Bytes) : Except MetadataError (Bool × Bytes) := do
  let (n, rest) ← takeNumber 1 value
  if n = 0 then .ok (false, rest) else if n = 1 then .ok (true, rest) else .error (.invalidBool n)

def encodeBool (value : Bool) : Bytes := [if value then 1 else 0]

def encodeU64Key (value : ℕ) : Bytes := toBe 8 value

def decodeU64Key (key : Bytes) : Except MetadataError ℕ :=
  if key.length = 8 then .ok (ofBe key) else .error .invalidKeyLength

namespace MetadataState

def stateFormatVersion : ℕ := 1

def encode (state : MetadataState) : Bytes :=
  toBe 2 stateFormatVersion ++ toBe 8 state.nextSegmentId ++ toBe 8 state.activeSegmentId

def decode (value : Bytes) : Except MetadataError MetadataState := do
  let (version, value) ← takeNumber 2 value
  if version ≠ stateFormatVersion then .error (.unsupportedFormatVersion version)
  else
    let (nextSegmentId, value) ← takeNumber 8 value
    let (activeSegmentId, _) ← takeNumber 8 value
    return ⟨nextSegmentId, activeSegmentId⟩

end MetadataState

namespace SlotMeta

def encode (m : SlotMeta) : Bytes :=
  encodeBool m.finalized ++ toBe 8 m.firstIndex ++ toBe 8 m.segmentId

def decode (slot : Slot) (value : Bytes) : Except MetadataError SlotMeta := do
  let (finalized, value) ← takeBool value
  let (firstIndex, value) ← takeNumber 8 value
  let (segmentId, _) ← takeNumber 8 value
  return ⟨slot, finalized, firstIndex, segmentId⟩

end SlotMeta

namespace SegmentMeta

def encode (m : SegmentMeta) : Bytes :=
  encodeBool m.isSealed ++ toBe 8 m.lastIndex ++ toBe 8 m.fileLen ++ toBe 4 m.chunkCount

def decode (segmentId : ℕ) (value : Bytes) : Except MetadataError SegmentMeta := do
  let (isSealed, value) ← takeBool value
  let (lastIndex, value) ← takeNumber 8 value
  let (fileLen, value) ← takeNumber 8 value
  let (chunkCount, _) ← takeNumber 4 value
  return ⟨segmentId, isSealed, lastIndex, fileLen, chunkCount⟩

end SegmentMeta

namespace ChunkMeta

def encode (m : ChunkMeta) : Bytes :=
  toBe 8 m.segmentId ++ toBe 8 m.offset ++ toBe 8 m.size ++ toBe 1 m.compression ++ toBe 8 m.lastIndex

def decode (firstIndex : ℕ) (value : Bytes) : Except MetadataError ChunkMeta := do
  let (segmentId, value) ← takeNumber 8 value
  let (offset, value) ← takeNumber 8 value
  let (size, value) ← takeNumber 8 value
  let (compression, value) ← takeNumber 1 value
  let (lastIndex, _) ← takeNumber 8 value
  return ⟨segmentId, offset, size, compression, firstIndex, lastIndex⟩

end ChunkMeta

/-! ### The metadata -/

def stateKey : Bytes := utf8 "state"
def replayFloorKey : Bytes := utf8 "replay_floor"

/-- The rows of a column family, decoded with the numbers of their keys. -/
def loadRows {α : Type} (decode : ℕ → Bytes → Except MetadataError α) :
    List (Bytes × Bytes) → Except MetadataError (List (ℕ × α))
  | [] => .ok []
  | (key, value) :: rows => do
    let n ← decodeU64Key key
    let x ← decode n value
    let loaded ← loadRows decode rows
    return (n, x) :: loaded

/-- A `BTreeMap` of the rows. -/
def mapOfRows {α : Type} (rows : List (ℕ × α)) : SortedMap ℕ α :=
  rows.foldl (fun m row => m.insert row.1 row.2) .empty

structure Metadata (lib : RocksDb) where
  db : lib.Db
  catalog : MetadataMirror

namespace Metadata

variable {lib : RocksDb}

def readState (lib : RocksDb) (db : lib.Db) : Except MetadataError (Option MetadataState) :=
  match lib.get db .state stateKey with
  | none => .ok none
  | some value => (MetadataState.decode value).map some

def readReplayFloor (lib : RocksDb) (db : lib.Db) : Except MetadataError ℕ :=
  match lib.get db .state replayFloorKey with
  | none => .ok 0
  | some value => decodeU64Key value

def loadCatalogFromDb (lib : RocksDb) (db : lib.Db) : Except MetadataError MetadataMirror := do
  let state ← readState lib db
  let slots ← loadRows SlotMeta.decode (lib.iterator db .slots)
  let segments ← loadRows SegmentMeta.decode (lib.iterator db .segments)
  let chunks ← loadRows ChunkMeta.decode (lib.iterator db .chunks)
  let replayFloor ← readReplayFloor lib db
  return {
    slots := mapOfRows slots
    segments := mapOfRows segments
    chunks := (chunks.map Prod.snd).mergeSort fun a b => a.firstIndex ≤ b.firstIndex
    state := state.getD .default
    replayFloor }

/-- `Metadata::open`, of the database that is there. -/
def «open» (lib : RocksDb) (db : lib.Db) : Except MetadataError (Metadata lib) := do
  let state ← readState lib db
  let db := if state.isNone then lib.writeBatch db [.put .state stateKey MetadataState.default.encode] else db
  let catalog ← loadCatalogFromDb lib db
  return ⟨db, catalog⟩

def putState (state : MetadataState) : BatchOp := .put .state stateKey state.encode
def putSlot (m : SlotMeta) : BatchOp := .put .slots (encodeU64Key m.slot) m.encode
def putSegment (m : SegmentMeta) : BatchOp := .put .segments (encodeU64Key m.segmentId) m.encode
def putChunk (m : ChunkMeta) : BatchOp := .put .chunks (encodeU64Key m.firstIndex) m.encode

def initializeEmpty (md : Metadata lib) (state : MetadataState) (segment : SegmentMeta) :
    Except MetadataError (Metadata lib) := do
  let db := lib.writeBatch md.db [putSegment segment, putState state]
  let catalog ← loadCatalogFromDb lib db
  return ⟨db, catalog⟩

def chunkBatch (commit : MetadataChunkCommit) : List BatchOp :=
  commit.newSlots.map putSlot ++ commit.updatedSlots.map putSlot ++
    [putChunk commit.chunk, putSegment commit.segment, putState commit.state]

def trimBatch (commit : MetadataTrimCommit) : List BatchOp :=
  .delete .slots (encodeU64Key commit.removedSlot) ::
    (commit.deletedSlots.map fun slot => .delete .slots (encodeU64Key slot)) ++
    (commit.deletedChunks.map fun firstIndex => .delete .chunks (encodeU64Key firstIndex)) ++
    commit.deletedSegments.map fun segmentId => .delete .segments (encodeU64Key segmentId)

def rotationBatch (commit : RotationCommit) : List BatchOp :=
  [putSegment commit.sealedSegment, putSegment commit.newSegment, putState commit.state]

def applyChunkCommit (md : Metadata lib) (commit : MetadataChunkCommit) : Metadata lib :=
  ⟨lib.writeBatch md.db (chunkBatch commit), md.catalog.applyChunkCommit commit⟩

def applyTrimCommit (md : Metadata lib) (commit : MetadataTrimCommit) : Metadata lib :=
  ⟨lib.writeBatch md.db (trimBatch commit), md.catalog.applyTrimCommit commit⟩

def applyRotationCommit (md : Metadata lib) (commit : RotationCommit) : Metadata lib :=
  ⟨lib.writeBatch md.db (rotationBatch commit), md.catalog.applyRotationCommit commit⟩

def setReplayFloor (md : Metadata lib) (index : ℕ) : Metadata lib :=
  ⟨lib.writeBatch md.db [.put .state replayFloorKey (toBe 8 index)], md.catalog.setReplayFloor index⟩

end Metadata

/-! ### A node and its database -/

/-- What a node asks of its metadata. -/
inductive MetadataCall where
  | open
  | initializeEmpty (state : MetadataState) (segment : SegmentMeta)
  | chunk (commit : MetadataChunkCommit)
  | trim (commit : MetadataTrimCommit)
  | rotation (commit : RotationCommit)
  | replayFloor (index : ℕ)

def Metadata.call {lib : RocksDb} (md : Metadata lib) : MetadataCall → Except MetadataError (Metadata lib)
  | .open => Metadata.open lib md.db
  | .initializeEmpty state segment => md.initializeEmpty state segment
  | .chunk commit => .ok (md.applyChunkCommit commit)
  | .trim commit => .ok (md.applyTrimCommit commit)
  | .rotation commit => .ok (md.applyRotationCommit commit)
  | .replayFloor index => .ok (md.setReplayFloor index)

namespace Node

/-- The next commit of the segment writer, from the catalog in memory. -/
def writerCall (cfg : ConfigNode) (writer : SegmentWriter) (catalog : MetadataMirror) : Option MetadataCall :=
  if writer.rotating then some (.rotation (buildRotationCommit catalog writer.activeSegment))
  else
    match writer.pending.get? writer.nextSeq with
    | none => none
    | some (.rawChunk chunk) =>
      let chunkMeta : ChunkMeta :=
        { segmentId := writer.activeSegment.segmentId
          offset := writer.activeSegment.fileLen
          size := cfg.storage.compressedSize chunk
          compression := SegmentWriter.compression cfg
          firstIndex := chunk.firstIndex
          lastIndex := chunk.lastIndex }
      some (.chunk (buildChunkCommit catalog writer.activeSegment chunkMeta chunk.pendingSlots
        chunk.pendingFinalized))
    | some (.trim slot upTo) => some (.trim (buildTrimCommit catalog slot upTo))

/-- The call of an action of a process that runs. -/
def call (cfg : ConfigNode) (s : Node) (catalog : MetadataMirror) : NodeAction → Option MetadataCall
  | .beginLiveEpoch => if cfg.channel.storage.isSome then some (.replayFloor s.sender.index) else none
  | .write => writerCall cfg s.writer catalog
  | .restart _ => some .open
  | _ => none

end Node

/-- `SegmentWriter::open`, if there is no segment yet. -/
def Metadata.firstSegment {lib : RocksDb} (md : Metadata lib) : Except MetadataError (Metadata lib) :=
  let state := md.catalog.state
  if state.activeSegmentId = 0 then
    md.call (.initializeEmpty ⟨state.nextSegmentId + 1, state.nextSegmentId⟩ (.empty state.nextSegmentId 0))
  else .ok md

/-- The metadata of the node after the action. -/
def Metadata.follow {lib : RocksDb} (cfg : ConfigNode) (s : Node) (md : Metadata lib) (action : NodeAction) :
    Except MetadataError (Metadata lib) := do
  match s.call cfg md.catalog action with
  | none => return md
  | some call =>
    let md ← md.call call
    match action with
    | .restart _ => md.firstSegment
    | _ => return md

/-- The metadata of the first process. -/
def Metadata.start (lib : RocksDb) : Except MetadataError (Metadata lib) := do
  let md ← Metadata.open lib lib.create
  md.firstSegment

structure NodeDb (lib : RocksDb) where
  node : Node
  metadata : Metadata lib

inductive NodeDbError where
  | node (error : NodeError)
  | metadata (error : MetadataError)

def NodeDb.step {lib : RocksDb} (cfg : ConfigNode) : Step (NodeDb lib) NodeAction NodeEvent NodeDbError
  | s, action =>
    match s.metadata.follow cfg s.node action with
    | .error e => .error (.metadata e)
    | .ok metadata =>
      match Node.step cfg s.node action with
      | .error e => .error (.node e)
      | .ok (node, out) => .ok (⟨node, metadata⟩, out)

end Richat
