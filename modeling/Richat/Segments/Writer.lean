import Mathlib.Data.String.Basic
import Richat.Lib.Crash
import Richat.Lib.Overwrite
import Richat.Storage.Metadata

/-!
# The segment files

`SegmentWriter` over the directory of the segment files and the metadata. A chunk is written to the active file,
synced and then committed; a new segment file is created before the commit that makes it the active one, and the
file of a deleted segment is removed after the commit that deletes it. `SegmentWriter::open` removes the files
that the catalog does not know.

An operation here is a call of the file system or a commit. The catalog is what the metadata has: each commit is
durable as a whole.
-/

namespace Richat.Segments

open Lib Lib.Crash Lib.Protobuf

/-! ### The disk -/

structure File where
  content : Bytes
  /-- a crash keeps so many bytes -/
  synced : ℕ
  synced_le : synced ≤ content.length

namespace File

def empty : File := ⟨[], 0, le_rfl⟩

theorem min_synced_le (file : File) (offset : ℕ) (bytes : Bytes) :
    min file.synced offset ≤
      (overwrite (file.content ++ List.replicate (offset - file.content.length) 0) offset bytes).length := by
  have := file.synced_le
  simp only [overwrite, List.length_append, List.length_take, List.length_drop, List.length_replicate]
  omega

/-- The bytes at the offset, with zeros before them if the file is shorter. -/
def write (file : File) (offset : ℕ) (bytes : Bytes) : File where
  content := overwrite (file.content ++ List.replicate (offset - file.content.length) 0) offset bytes
  synced := min file.synced offset
  synced_le := min_synced_le file offset bytes

def sync (file : File) : File := ⟨file.content, file.content.length, le_rfl⟩

/-- What a crash leaves of a file: what was synced, and anything behind it. -/
def Loses (file file' : File) : Prop :=
  file'.synced = file.synced ∧ file'.content.take file.synced = file.content.take file.synced

end File

structure Disk where
  files : SortedMap String File
  catalog : MetadataMirror
  /-- the chunks that were committed with their payloads; not on the disk -/
  committed : List (ChunkMeta × Bytes)

namespace Disk

def new : Disk := ⟨.empty, .new, []⟩

/-- What a crash leaves of a disk. -/
structure Loses (d d' : Disk) : Prop where
  catalog : d'.catalog = d.catalog
  committed : d'.committed = d.committed
  missing : ∀ name, d.files.get? name = none → d'.files.get? name = none
  files : ∀ name file, d.files.get? name = some file →
    ∃ file', d'.files.get? name = some file' ∧ file.Loses file'

end Disk

/-- The order in which a directory is read is not known. -/
structure FileSystem where
  readDir : SortedMap String File → List String
  readDir_perm : ∀ files, (readDir files).Perm files.keys

/-! ### The operations -/

inductive SegmentError where
  | notFound (name : String)
  | alreadyExists (name : String)
  | missingActiveSegment
  deriving DecidableEq

inductive Operation where
  | createNew (name : String)
  | openFile (name : String)
  | write (name : String) (offset : ℕ) (bytes : Bytes)
  | syncData (name : String)
  | removeFile (name : String)
  | initializeEmpty (state : MetadataState) (segment : SegmentMeta)
  | chunkCommit (commit : MetadataChunkCommit) (payload : Bytes)
  | rotationCommit (commit : RotationCommit)
  | trimCommit (commit : MetadataTrimCommit)

/-- A call of the file system for a file that has to be there. -/
def Disk.withFile (d : Disk) (name : String) (f : File → SortedMap String File) : Except SegmentError Disk :=
  match d.files.get? name with
  | none => .error (.notFound name)
  | some file => .ok { d with files := f file }

def exec : Operation → Disk → Except SegmentError Disk
  | .createNew name, d =>
    if d.files.contains name then .error (.alreadyExists name)
    else .ok { d with files := d.files.insert name .empty }
  | .openFile name, d => d.withFile name fun _ => d.files
  | .write name offset bytes, d => d.withFile name fun file => d.files.insert name (file.write offset bytes)
  | .syncData name, d => d.withFile name fun file => d.files.insert name file.sync
  | .removeFile name, d => d.withFile name fun _ => d.files.erase name
  | .initializeEmpty state segment, d => .ok { d with catalog := d.catalog.initializeEmpty state segment }
  | .chunkCommit commit payload, d =>
    .ok { d with
      catalog := d.catalog.applyChunkCommit commit
      committed := d.committed ++ [(commit.chunk, payload)] }
  | .rotationCommit commit, d => .ok { d with catalog := d.catalog.applyRotationCommit commit }
  | .trimCommit commit, d => .ok { d with catalog := d.catalog.applyTrimCommit commit }

abbrev Program := Prog Operation Disk SegmentError

def perform (operation : Operation) : Program Unit := Prog.perform exec operation

/-! ### The names of the files -/

/-- `format!("{segment_id:012}.seg")`. -/
def segmentFileName (segmentId : ℕ) : String :=
  String.ofList (List.leftpad 12 '0' (Nat.toDigits 10 segmentId) ++ ".seg".toList)

/-- The number of a name of twelve digits. -/
def segmentIdOf (name : String) : Option ℕ :=
  let chars := name.toList
  let id := chars.take (chars.length - 4)
  if chars.drop (chars.length - 4) = ".seg".toList ∧ id.length = 12 ∧ id.all Char.isDigit then
    some (Nat.ofDigitChars 10 id 0)
  else none

/-! ### `SegmentWriter` -/

/-- The loop of `remove_orphan_segments`. -/
def removeOrphans (catalog : MetadataMirror) : List String → Program ℕ
  | [] => pure 0
  | name :: names =>
    match segmentIdOf name with
    | none => removeOrphans catalog names
    | some segmentId =>
      if catalog.segments.contains segmentId then removeOrphans catalog names
      else do
        perform (.removeFile name)
        let removed ← removeOrphans catalog names
        return removed + 1

def removeOrphanSegments (fs : FileSystem) (catalog : MetadataMirror) : Program ℕ := do
  let entries ← Prog.get fun d => fs.readDir d.files
  removeOrphans catalog entries

/-- A chunk as a compressor sends it. -/
structure CompressedChunk where
  compression : ℕ
  firstIndex : ℕ
  lastIndex : ℕ
  payload : Bytes
  pendingSlots : List PendingSlot
  pendingFinalized : List Slot

/-- `SegmentWriter`; the file is known by its name. -/
structure Writer where
  segmentTargetSize : ℕ
  activeSegment : SegmentMeta
  activeFile : String

namespace Writer

/-- The first segment, if there is none. -/
def createFirst (catalog : MetadataMirror) : Program Unit :=
  if catalog.state.activeSegmentId = 0 then do
    let state : MetadataState := ⟨catalog.state.nextSegmentId + 1, catalog.state.nextSegmentId⟩
    let segment := SegmentMeta.empty state.activeSegmentId 0
    perform (.createNew (segmentFileName segment.segmentId))
    perform (.initializeEmpty state segment)
  else pure ()

/-- The file of the active segment. -/
def openActive (segmentTargetSize : ℕ) (catalog : MetadataMirror) : Program Writer :=
  match catalog.segments.get? catalog.state.activeSegmentId with
  | none => Prog.fail .missingActiveSegment
  | some activeSegment => do
    let name := segmentFileName activeSegment.segmentId
    perform (.openFile name)
    return ⟨segmentTargetSize, activeSegment, name⟩

def «open» (fs : FileSystem) (segmentTargetSize : ℕ) : Program Writer := do
  let catalog ← Prog.get Disk.catalog
  let _ ← removeOrphanSegments fs catalog
  createFirst catalog
  let catalog ← Prog.get Disk.catalog
  openActive segmentTargetSize catalog

def rotateSegment (w : Writer) : Program Writer := do
  let catalog ← Prog.get Disk.catalog
  let commit := buildRotationCommit catalog w.activeSegment
  let name := segmentFileName commit.newSegment.segmentId
  perform (.createNew name)
  perform (.rotationCommit commit)
  return { w with activeSegment := commit.newSegment, activeFile := name }

def chunkMeta (w : Writer) (chunk : CompressedChunk) : ChunkMeta where
  segmentId := w.activeSegment.segmentId
  offset := w.activeSegment.fileLen
  size := chunk.payload.length
  compression := chunk.compression
  firstIndex := chunk.firstIndex
  lastIndex := chunk.lastIndex

def chunkCommit (w : Writer) (catalog : MetadataMirror) (chunk : CompressedChunk) : MetadataChunkCommit :=
  buildChunkCommit catalog w.activeSegment (w.chunkMeta chunk) chunk.pendingSlots chunk.pendingFinalized

/-- `SegmentWriter::append_chunk` up to the commit. -/
def commitChunk (w : Writer) (chunk : CompressedChunk) : Program Writer := do
  perform (.write w.activeFile w.activeSegment.fileLen chunk.payload)
  perform (.syncData w.activeFile)
  let catalog ← Prog.get Disk.catalog
  let commit := w.chunkCommit catalog chunk
  perform (.chunkCommit commit chunk.payload)
  return { w with activeSegment := commit.segment }

def appendChunk (w : Writer) (chunk : CompressedChunk) : Program Writer := do
  let w ← w.commitChunk chunk
  if w.segmentTargetSize ≤ w.activeSegment.fileLen then w.rotateSegment else return w

/-- A file that is not there is no failure. -/
def removeSegments : List ℕ → Program Unit
  | [] => pure ()
  | segmentId :: segmentIds => do
    match ← Prog.attempt (perform (.removeFile (segmentFileName segmentId))) with
    | .ok _ => removeSegments segmentIds
    | .error (.notFound _) => removeSegments segmentIds
    | .error e => Prog.fail e

def handleTrim (w : Writer) (slot : Slot) (upTo : Option ℕ) : Program Writer := do
  let catalog ← Prog.get Disk.catalog
  let commit := buildTrimCommit catalog slot upTo
  perform (.trimCommit commit)
  removeSegments commit.deletedSegments
  return w

end Writer

/-! ### The process -/

/-- A crash before the operation leaves no new file with a name of more than twelve digits: it does not come
between the creation of such a file and its commit. -/
def Operation.LeavesShortName : Operation → Prop
  | .rotationCommit commit => commit.newSegment.segmentId < 10 ^ 12
  | _ => True

/-- What `SegmentWriter::run` receives. -/
inductive WriterCall where
  | compressedChunk (chunk : CompressedChunk)
  | trim (slot : Slot) (upTo : Option ℕ)

def Writer.serve (w : Writer) : WriterCall → Program Writer
  | .compressedChunk chunk => w.appendChunk chunk
  | .trim slot upTo => w.handleTrim slot upTo

def system (fs : FileSystem) (segmentTargetSize : ℕ) : System Operation Disk SegmentError Writer WriterCall where
  start := Writer.open fs segmentTargetSize
  serve := Writer.serve
  loses := Disk.Loses

end Richat.Segments
