import Richat.Filter.Message
import Richat.Lib.Beside
import Richat.Segments.Writer
import Richat.Storage.Handoff
import Richat.Storage.Record

/-!
# The replay reader

What a replay worker reads of the segment files, while the writer goes on. `DecompressedChunk` gives the records of
a chunk one after the other, `SegmentReader` the next chunk, and both get their chunks from a `ChunkLoader`: the
payload of a publication may be in an older chunk.

The loader looks a chunk up in the catalog, opens the file of its segment unless it is the one that is open, and
reads the bytes. The writer may take steps before each of these. A file that is open stays readable when its name is
removed.

The metrics are left out.
-/

namespace Richat.Segments

open Lib Lib.Crash Lib.Protobuf Record

inductive ReplayError where
  /-- "replay records were pruned before index {}" -/
  | prunedBefore (index : ℕ)
  /-- "replay payload has been pruned" -/
  | payloadPruned
  /-- "failed to open replay segment" -/
  | openSegment (segmentId : ℕ)
  /-- `read_exact` -/
  | unexpectedEof
  /-- "invalid chunk indices" -/
  | invalidChunkIndices
  | record (error : ReaderError)
  /-- "invalid forward or trailing payload reference" -/
  | forwardOrTrailing
  /-- "payload reference does not match publication" -/
  | notPublication
  /-- "failed to parse replay message" -/
  | parse (error : Filter.MessageParseError)
  /-- "payload slot does not match record header" -/
  | slotMismatch
  | panic

def ofReader {α : Type} : Reader α → Except ReplayError α
  | none => .error .panic
  | some (.error e) => .error (.record e)
  | some (.ok a) => .ok a

/-! ### The chunks -/

/-- `ChunkData::size`, for indices of eight bytes. -/
def chunkSize (data : ChunkData) : ℕ := data.bytes.length + data.records.length * 16

/-- `ChunkData::contains` -/
def hasRecord (data : ChunkData) (index : ℕ) : Bool :=
  data.firstIndex ≤ index ∧ index - data.firstIndex < data.records.length

/-- The bytes of the records. -/
def decompress (lib : Zstd) (compression : UInt8) (payload : Bytes) : Except ReplayError Bytes :=
  match ChunkCompression.fromTag (compression &&& 0x03) with
  | none => .error (.record (.unsupportedCompression (compression &&& 0x03)))
  | some .none => .ok payload
  | some (.zstd _) =>
    match lib.decompress payload with
    | none => .error (.record .decompress)
    | some bytes => .ok bytes

/-- What `ChunkLoader::load` makes of the bytes of the file. -/
def decodeChunk (lib : Zstd) (chunk : ChunkMeta) (payload : Bytes) : Except ReplayError ChunkData := do
  let compression := UInt8.ofNat chunk.compression
  let bytes ← decompress lib compression payload
  if chunk.lastIndex < chunk.firstIndex then throw .invalidChunkIndices
  ofReader (ChunkData.new chunk.firstIndex compression bytes (chunk.lastIndex - chunk.firstIndex + 1))

/-! ### The cache -/

/-- The last chunks and the last file of a reader. -/
structure ChunkLoader where
  /-- the segment of the file that is open, and its content -/
  file : Option (ℕ × File)
  cache : List ChunkData
  cacheBytes : ℕ

namespace ChunkLoader

def new : ChunkLoader := ⟨none, [], 0⟩

/-- `CACHE_BYTES` -/
def maxBytes : ℕ := 16 * 1024 * 1024

/-- A chunk of the cache is the last one that was used. -/
def cached? (loader : ChunkLoader) (chunk : ChunkMeta) : Option (ChunkData × ChunkLoader) :=
  (loader.cache.find? (·.firstIndex = chunk.firstIndex)).map fun data =>
    (data, { loader with cache := loader.cache.eraseP (·.firstIndex = chunk.firstIndex) ++ [data] })

/-- The loop before a chunk of the size is added. -/
def evict (size : ℕ) : List ChunkData → ℕ → List ChunkData × ℕ
  | [], cacheBytes => ([], cacheBytes)
  | data :: cache, cacheBytes =>
    if 2 ≤ (data :: cache).length ∨ maxBytes < cacheBytes + size then
      evict size cache (cacheBytes - chunkSize data)
    else (data :: cache, cacheBytes)

def add (loader : ChunkLoader) (data : ChunkData) : ChunkLoader :=
  let (cache, cacheBytes) := evict (chunkSize data) loader.cache loader.cacheBytes
  { loader with cache := cache ++ [data], cacheBytes := cacheBytes + chunkSize data }

/-- `seek` and `read_exact` in the file that is open. -/
def readChunk (loader : ChunkLoader) (chunk : ChunkMeta) : Except ReplayError Bytes :=
  match loader.file with
  | none => .error .panic
  | some (_, file) =>
    let payload := (file.content.drop chunk.offset).take chunk.size
    if payload.length < chunk.size then .error .unexpectedEof else .ok payload

end ChunkLoader

/-- The chunk of the catalog that `partition_point` finds: the first one that does not end before the index. -/
def lookupChunk (catalog : MetadataMirror) (index : ℕ) : Option ChunkMeta :=
  catalog.chunks.find? fun chunk => index ≤ chunk.lastIndex

/-! ### The records -/

/-- `ScannedRecord` -/
structure Scanned where
  index : ℕ
  payloadIndex : Option ℕ
  commitment : CommitmentLevel
  /-- `none` advances the journal cursor without reading an excluded payload -/
  message : Option Filter.Message

/-- What a record has, or what it still needs. -/
inductive RecordRead where
  | record (record : Scanned)
  /-- a reference to a record of another chunk -/
  | payload (header : RecordHeader) (target : ℕ)

/-- The generated decoders, the parser of the settings and the decompression. -/
structure ReplayLib where
  zstd : Zstd
  gen : Filter.Generated
  parser : Filter.MessageParserEncoding

section

variable (lib : ReplayLib)

/-- `RecordHeader::decode` -/
def decodeMessage (header : RecordHeader) : Except ReplayError Filter.Message :=
  match Filter.Message.parse lib.gen header.payload (if header.block then .prost else lib.parser) with
  | .error e => .error (.parse e)
  | .ok message => if message.slotOf = header.slot then .ok message else .error .slotMismatch

/-- The header of the record at the index. -/
def headerAt (data : ChunkData) (index : ℕ) : Except ReplayError RecordHeader := do
  let record ← ofReader (data.record index)
  ofReader (RecordHeader.parse record data.format)

def excludes (selection : Option ReplaySelection) (header : RecordHeader) : Bool :=
  selection.any fun selection =>
    selection.commitment ≠ header.commitment ∨ selection.fromSlot.any (header.slot.toNat < ·)

/-- The payload of a reference is that of the record at the target. -/
def resolve (header : RecordHeader) (index target : ℕ) (data : ChunkData) : Except ReplayError Scanned := do
  let original ← headerAt data target
  if original.reference ∨ original.slot ≠ header.slot ∨ original.block ≠ header.block then throw .notPublication
  let message ← decodeMessage lib original
  return ⟨index, some target, header.commitment, some message⟩

/-- `DecompressedChunk::read` up to the payload of another chunk. -/
def readRecord (selection : Option ReplaySelection) (data : ChunkData) (index : ℕ) : Except ReplayError RecordRead := do
  let header ← headerAt data index
  if excludes selection header then return .record ⟨index, none, header.commitment, none⟩
  if header.reference then
    let (target, payload) ← ofReader (readVarint (fun _ => .invalidPayloadReference) header.payload)
    if payload ≠ [] ∨ index ≤ target then throw .forwardOrTrailing
    if hasRecord data target then return .record (← resolve lib header index target data)
    return .payload header target
  let message ← decodeMessage lib header
  return .record ⟨index, some index, header.commitment, some message⟩

end

/-! ### The worker -/

/-- `DecompressedChunk`; one that failed is not read again. -/
structure OpenChunk where
  data : ChunkData
  cursor : ℕ

/-- What a chunk is loaded for. -/
inductive Purpose where
  | next
  | payload (header : RecordHeader) (index target : ℕ)

inductive Loading where
  | idle
  | opening (purpose : Purpose) (chunk : ChunkMeta)
  | reading (purpose : Purpose) (chunk : ChunkMeta)

/-- A `SegmentReader` and the chunk that is taken from it. -/
structure Scan where
  nextIndex : ℕ
  loader : ChunkLoader
  chunk : Option OpenChunk
  loading : Loading
  /-- the error of the turn ends the request -/
  failed : Bool

inductive ScanEvent where
  | scanned (record : Scanned)
  /-- the writer may still be flushing -/
  | caughtUp
  | failed (error : ReplayError)

inductive ScanAction where
  /-- `next_selected`, or `SegmentReader::next` if the chunk has no more records -/
  | turn
  | openFile
  | readFile

namespace Scan

def new (startIndex : ℕ) : Scan := ⟨startIndex, .new, none, .idle, false⟩

def fail (scan : Scan) (error : ReplayError) : Scan × List ScanEvent :=
  ({ scan with loading := .idle, failed := true }, [.failed error])

def yields (scan : Scan) : Except ReplayError Scanned → Scan × List ScanEvent
  | .error e => scan.fail e
  | .ok record => ({ scan with loading := .idle }, [.scanned record])

variable (lib : ReplayLib)

/-- The chunk is loaded. -/
def loaded (scan : Scan) (chunk : ChunkMeta) (data : ChunkData) : Purpose → Scan × List ScanEvent
  | .next =>
    ({ scan with
      nextIndex := chunk.lastIndex + 1
      chunk := some ⟨data, scan.nextIndex - chunk.firstIndex⟩
      loading := .idle }, [])
  | .payload header index target => scan.yields (resolve lib header index target data)

/-- `ChunkLoader::load` up to the file. -/
def load (scan : Scan) (chunk : ChunkMeta) (purpose : Purpose) : Scan × List ScanEvent :=
  match scan.loader.cached? chunk with
  | some (data, loader) => { scan with loader }.loaded lib chunk data purpose
  | none =>
    if scan.loader.file.all (·.1 ≠ chunk.segmentId) then ({ scan with loading := .opening purpose chunk }, [])
    else ({ scan with loading := .reading purpose chunk }, [])

/-- `SegmentReader::load_next` -/
def loadNext (scan : Scan) (catalog : MetadataMirror) : Scan × List ScanEvent :=
  match lookupChunk catalog scan.nextIndex with
  | none => (scan, [.caughtUp])
  | some chunk =>
    if scan.nextIndex < chunk.firstIndex then scan.fail (.prunedBefore scan.nextIndex)
    else scan.load lib chunk .next

/-- `ChunkLoader::payload_chunk` -/
def payloadChunk (scan : Scan) (catalog : MetadataMirror) (header : RecordHeader) (index target : ℕ) :
    Scan × List ScanEvent :=
  match (lookupChunk catalog target).filter (·.firstIndex ≤ target) with
  | none => scan.fail .payloadPruned
  | some chunk => scan.load lib chunk (.payload header index target)

def turn (selection : Option ReplaySelection) (scan : Scan) (catalog : MetadataMirror) : Scan × List ScanEvent :=
  match scan.chunk with
  | none => scan.loadNext lib catalog
  | some ⟨data, cursor⟩ =>
    if cursor = data.records.length then scan.loadNext lib catalog
    else
      let index := data.firstIndex + cursor
      let scan := { scan with chunk := some ⟨data, cursor + 1⟩ }
      match readRecord lib selection data index with
      | .error e => scan.fail e
      | .ok (.record record) => scan.yields (.ok record)
      | .ok (.payload header target) => scan.payloadChunk lib catalog header index target

def openFile (scan : Scan) (d : Disk) (purpose : Purpose) (chunk : ChunkMeta) : Scan × List ScanEvent :=
  match d.files.get? (segmentFileName chunk.segmentId) with
  | none => scan.fail (.openSegment chunk.segmentId)
  | some file =>
    ({ scan with
      loader := { scan.loader with file := some (chunk.segmentId, file) }
      loading := .reading purpose chunk }, [])

def readFile (scan : Scan) (purpose : Purpose) (chunk : ChunkMeta) : Scan × List ScanEvent :=
  match scan.loader.readChunk chunk >>= decodeChunk lib.zstd chunk with
  | .error e => scan.fail e
  | .ok data => { scan with loader := scan.loader.add data }.loaded lib chunk data purpose

def step (selection : Option ReplaySelection) (d : Disk) (scan : Scan) (action : ScanAction) :
    Option (Scan × List ScanEvent) :=
  if scan.failed then none
  else
    match scan.loading, action with
    | .idle, .turn => some (scan.turn lib selection d.catalog)
    | .opening purpose chunk, .openFile => some (scan.openFile d purpose chunk)
    | .reading purpose chunk, .readFile => some (scan.readFile lib purpose chunk)
    | _, _ => none

/-- What the file that is open has, after a step of the writer. -/
def follow (d : Disk) (scan : Scan) : Scan :=
  { scan with
    loader :=
      { scan.loader with
        file := scan.loader.file.map fun held =>
          (held.1, (d.files.get? (segmentFileName held.1)).getD held.2) } }

/-- The worker of a client beside the segment writer. -/
def observer (selection : Option ReplaySelection) : Observer Disk Scan ScanAction ScanEvent where
  react := follow
  step := step lib selection

end Scan

end Richat.Segments
