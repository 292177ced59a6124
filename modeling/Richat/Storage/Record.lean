import Richat.Filter.Encode
import Richat.Storage.Metadata

/-!
# The records of a chunk as bytes

The compressor writes the records of a chunk one after the other, each with its length before it: a tag with
the commitment and two flags, the slot, and the payload or the index of the record that has it. The byte of
the chunk in the catalog says how the chunk is compressed, which commitments it has and which of the flags
its records use; older chunks have records without the tag.

The reader gives an error for what it cannot read. A panic, and a loop that does not end, are `none`.
-/

namespace Richat.Record

open Lib.Protobuf Richat.Filter

/-! ### The byte of the chunk -/

inductive ChunkCompression where
  | none
  | zstd (level : Int32)
  deriving DecidableEq

/-- High bit distinguishes commitment-aware records from the original processed-only format. -/
def commitmentRecords : UInt8 := 0x80

/-- Reference-capable chunks keep one payload and append publication references. -/
def referenceRecords : UInt8 := 0x40

/-- `Storage::commitment_bit` -/
def commitmentBit : CommitmentLevel → UInt8
  | .processed => 1
  | .confirmed => 2
  | .finalized => 4

/-- `ConfigStorage::commitment_mask`. -/
def commitmentMask (commitments : List CommitmentLevel) : UInt8 :=
  commitments.foldl (fun mask level => mask ||| commitmentBit level) 0

namespace ChunkCompression

def tag : ChunkCompression → UInt8
  | none => 0
  | zstd _ => 1

/-- The level is not stored. -/
def fromTag (tag : UInt8) : Option ChunkCompression :=
  if tag = 0 then some none
  else if tag = 1 then some (zstd 0)
  else Option.none

end ChunkCompression

/-- `compression_tag` of the compressor. -/
def compressionTag (mask : UInt8) (compression : Option ChunkCompression) : UInt8 :=
  (compression.getD .none).tag ||| commitmentRecords ||| referenceRecords ||| ((mask ||| 1) <<< 2)

/-- Whether the records of the chunk tell the blocks apart. -/
def hasBlocks (chunk : ChunkMeta) : Bool := chunk.compression &&& 0x80 ≠ 0

/-- `Storage::supports_block_replay`. -/
def supportsBlockReplay (catalog : MetadataMirror) (index : ℕ) : Bool :=
  (catalog.chunks.filter fun chunk => index ≤ chunk.lastIndex).all hasBlocks

/-! ### The writer -/

inductive JournalPayload where
  | message (message : Filter.Message)
  | reference (index : UInt64)

/-- A record with its message, as the compressor gets it. -/
structure JournalRecord where
  commitment : CommitmentLevel
  slot : UInt64
  block : Bool
  payload : JournalPayload

/-- `extend_from_slice`, for a vector that cannot hold more than `isize::MAX` bytes. -/
def extendVec (buf bytes : Bytes) : Except FilterPanic Bytes :=
  if buf.length + bytes.length ≤ isizeMax then .ok (buf ++ bytes) else .error .capacityOverflow

def levelBits : CommitmentLevel → UInt8
  | .processed => 0
  | .confirmed => 1
  | .finalized => 2

namespace JournalRecord

def tag (record : JournalRecord) : UInt8 :=
  levelBits record.commitment ||| (if record.block then 0x80 else 0) |||
    (match record.payload with
      | .message _ => 0
      | .reference _ => 0x40)

/-- `record_buf` of the record. -/
def serialize (record : JournalRecord) : Except FilterPanic Bytes :=
  let header := record.tag :: encodeVarint record.slot.toNat
  match record.payload with
  | .message message => Filter.FilteredUpdate.encode ⟨[], .ofMessage message⟩ header
  | .reference index => .ok (header ++ encodeVarint index.toNat)

end JournalRecord

/-- `chunk_buf` after the records. -/
def serializeChunk (records : List JournalRecord) : Except FilterPanic Bytes :=
  records.foldlM (fun chunkBuf record => do
    let recordBuf ← record.serialize
    let chunkBuf ← extendVec chunkBuf (encodeVarint recordBuf.length)
    extendVec chunkBuf recordBuf) []

/-- The library of the compression. -/
structure Zstd where
  compress : Int32 → Bytes → Bytes
  decompress : Bytes → Option Bytes

/-- The payload of a chunk and its byte. -/
def runCompressor (lib : Zstd) (mask : UInt8) (compression : Option ChunkCompression)
    (records : List JournalRecord) : Except FilterPanic (UInt8 × Bytes) := do
  let chunkBuf ← serializeChunk records
  let payload := match compression with
    | some (.zstd level) => lib.compress level chunkBuf
    | _ => chunkBuf
  return (compressionTag mask compression, payload)

/-! ### The reader -/

inductive ReaderError where
  | decode (error : DecodeError)
  | recordBoundaryOverflow
  /-- "record extends past chunk boundary" -/
  | recordPastChunk
  /-- "chunk record count does not match metadata" -/
  | recordCount
  | recordBeforeChunk
  | recordOutsideChunk
  | missingCommitmentHeader
  | invalidRecordCommitment (tag : UInt8)
  | invalidRecordSlot
  | invalidPayloadReference
  | unsupportedCompression (tag : UInt8)
  /-- "failed to decompress replay chunk" -/
  | decompress

/-- `none` is a panic or a loop that goes on for ever. -/
abbrev Reader (α : Type) : Type := Option (Except ReaderError α)

namespace Reader

variable {α β : Type}

def ok (a : α) : Reader α := some (.ok a)
def fail (error : ReaderError) : Reader α := some (.error error)

/-- `?` -/
def andThen (r : Reader α) (f : α → Reader β) : Reader β :=
  match r with
  | none => none
  | some (.error error) => some (.error error)
  | some (.ok a) => f a

end Reader

/-- `&bytes[start..stop]` -/
def sliceBytes (bytes : Bytes) (start stop : ℕ) : Reader Bytes :=
  if start ≤ stop ∧ stop ≤ bytes.length then .ok ((bytes.drop start).take (stop - start)) else none

def readVarint (error : DecodeError → ReaderError) (bytes : Bytes) : Reader (ℕ × Bytes) :=
  match decodeVarint bytes with
  | .ok r => .ok r
  | .error e => .fail (error e)

structure ChunkData where
  firstIndex : ℕ
  format : UInt8
  bytes : Bytes
  records : List Range

namespace ChunkData

/-- The turns of the loop from `offset`; after `fuel` turns the loop is given up. -/
def split (bytes : Bytes) : ℕ → ℕ → List Range → Reader (List Range)
  | 0, offset, records => if offset < bytes.length then none else .ok records
  | fuel + 1, offset, records =>
    if offset < bytes.length then
      (sliceBytes bytes offset bytes.length).andThen fun remaining =>
        (readVarint .decode remaining).andThen fun (len, remaining) =>
          if bytes.length < remaining.length then none
          else
            let start := bytes.length - remaining.length
            if 2 ^ 64 ≤ start + len then .fail .recordBoundaryOverflow
            else if bytes.length < start + len then .fail .recordPastChunk
            else split bytes fuel (start + len) (records ++ [⟨start, start + len⟩])
    else .ok records

def new (firstIndex : ℕ) (format : UInt8) (bytes : Bytes) (count : ℕ) : Reader ChunkData :=
  (split bytes bytes.length 0 []).andThen fun records =>
    if records.length = count then .ok ⟨firstIndex, format, bytes, records⟩ else .fail .recordCount

def record (data : ChunkData) (index : ℕ) : Reader Bytes :=
  if index < data.firstIndex then .fail .recordBeforeChunk
  else
    match data.records[index - data.firstIndex]? with
    | some range => sliceBytes data.bytes range.start range.stop
    | none => .fail .recordOutsideChunk

end ChunkData

structure RecordHeader where
  commitment : CommitmentLevel
  slot : UInt64
  block : Bool
  reference : Bool
  payload : Bytes

namespace RecordHeader

def levelOf (tag level : UInt8) : Except ReaderError CommitmentLevel :=
  if level = 0 then .ok .processed
  else if level = 1 then .ok .confirmed
  else if level = 2 then .ok .finalized
  else .error (.invalidRecordCommitment tag)

/-- The tag of a record: its commitment, whether it is a block, whether it is a reference. -/
def parseTag (format tag : UInt8) : Except ReaderError (CommitmentLevel × Bool × Bool) := do
  let reference := format &&& referenceRecords ≠ 0 ∧ tag &&& 0x40 ≠ 0
  let block := tag &&& 0x80 ≠ 0
  let level := if format &&& referenceRecords ≠ 0 then tag &&& 0x3f else tag &&& 0x7f
  return (← levelOf tag level, block, reference)

def parse (record : Bytes) (format : UInt8) : Reader RecordHeader :=
  let parseRest (commitment : CommitmentLevel) (block reference : Bool) (record : Bytes) : Reader RecordHeader :=
    (readVarint (fun _ => .invalidRecordSlot) record).andThen fun (slot, record) =>
      .ok ⟨commitment, UInt64.ofNat slot, block, reference, record⟩
  if format &&& commitmentRecords ≠ 0 then
    match record with
    | [] => .fail .missingCommitmentHeader
    | tag :: rest =>
      match parseTag format tag with
      | .error e => .fail e
      | .ok (commitment, block, reference) => parseRest commitment block reference rest
  else parseRest .processed false false record

/-- The index of a reference, as the replay reads it. -/
def target (header : RecordHeader) : Reader UInt64 :=
  (readVarint (fun _ => .invalidPayloadReference) header.payload).andThen fun (target, payload) =>
    if payload.isEmpty then .ok (UInt64.ofNat target) else .fail .invalidPayloadReference

end RecordHeader

/-- `ChunkLoader::load` of a chunk that is not cached, from the bytes of the file. -/
def load (lib : Zstd) (firstIndex count : ℕ) (compression : UInt8) (payload : Bytes) : Reader ChunkData :=
  match ChunkCompression.fromTag (compression &&& 0x03) with
  | none => .fail (.unsupportedCompression (compression &&& 0x03))
  | some .none => ChunkData.new firstIndex compression payload count
  | some (.zstd _) =>
    match lib.decompress payload with
    | none => .fail .decompress
    | some bytes => ChunkData.new firstIndex compression bytes count

/-! ### What is stored and what is read -/

/-- The payload of a record on the disk: the bytes of the message, or the index of the record with them. -/
inductive StoredPayload where
  | message (bytes : Bytes)
  | reference (index : UInt64)
  deriving DecidableEq

structure StoredRecord where
  commitment : CommitmentLevel
  slot : UInt64
  block : Bool
  payload : StoredPayload
  deriving DecidableEq

/-- The payload with the bytes of its message. -/
def JournalPayload.stored : JournalPayload → Except FilterPanic StoredPayload
  | .message msg => return .message (← Filter.FilteredUpdate.encodeToVec ⟨[], .ofMessage msg⟩)
  | .reference index => return .reference index

def JournalRecord.stored (record : JournalRecord) : Except FilterPanic StoredRecord := do
  return ⟨record.commitment, record.slot, record.block, ← record.payload.stored⟩

/-- The record of a header. -/
def RecordHeader.stored (header : RecordHeader) : Reader StoredRecord :=
  if header.reference then
    header.target.andThen fun index => .ok ⟨header.commitment, header.slot, header.block, .reference index⟩
  else .ok ⟨header.commitment, header.slot, header.block, .message header.payload⟩

namespace ChunkData

/-- The record at the index. -/
def stored (data : ChunkData) (index : ℕ) : Reader StoredRecord :=
  (data.record index).andThen fun record =>
    (RecordHeader.parse record data.format).andThen RecordHeader.stored

/-- All records of the chunk, from the index on. -/
def readFrom (data : ChunkData) : ℕ → ℕ → Reader (List StoredRecord)
  | _, 0 => .ok []
  | index, n + 1 =>
    (data.stored index).andThen fun record =>
      (data.readFrom (index + 1) n).andThen fun records => .ok (record :: records)

def readAll (data : ChunkData) : Reader (List StoredRecord) := data.readFrom data.firstIndex data.records.length

end ChunkData

end Richat.Record
