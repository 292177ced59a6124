import Richat.Storage.Metadata

/-!
# The collector of the journal

The collector gathers the records of the sender into chunks and numbers what it hands on: chunks, and
the trims in between. A payload that was already recorded for its slot is recorded as a reference to
the index of the first record; payloads are told apart by their allocation.

A chunk is handed on when it is large enough, when nothing comes for a while, before a trim and at the
end; only a processed record, the last one of its event, can end it.
-/

namespace Richat

open Lib

inductive RawPayload where
  | message (message : ParsedMessage)
  | reference (index : ℕ)

structure RawRecord where
  commitment : CommitmentLevel
  slot : Slot
  block : Bool
  finalized : Bool
  payload : RawPayload

/-- What tells payloads apart: the kind of the message and its allocation. -/
def ParsedMessage.payloadIdentity (message : ParsedMessage) : ℕ × ℕ :=
  let tag := match message.message with
    | .slot _ => 0
    | .account _ => 1
    | .transaction _ => 2
    | .entry _ => 3
    | .blockMeta _ => 4
    | .block _ => 5
    | .blockFooter _ => 6
    | .entryUpdateParent _ => 7
  (tag, message.arc)

/-- The recorded payloads of the slots that are not rooted, each with the index of its record. -/
abbrev PayloadReferences := SortedMap Slot (ℕ × ℕ → Option ℕ)

namespace PayloadReferences

def find (references : PayloadReferences) (slot : Slot) : ℕ × ℕ → Option ℕ :=
  (references.get? slot).getD fun _ => none

def add (references : PayloadReferences) (slot : Slot) (identity : ℕ × ℕ) (index : ℕ) :
    PayloadReferences :=
  references.insert slot (Function.update (references.find slot) identity (some index))

/-- `PayloadReferences::record`. -/
def record (references : PayloadReferences) (slot : Slot) (index : ℕ) (commitment : CommitmentLevel)
    (message : ParsedMessage) : PayloadReferences × RawRecord :=
  let identity := message.payloadIdentity
  let finalized := commitment = .processed ∧ message.isFinalized
  let (references, payload) := match references.find slot identity with
    | some index => (references.insert slot (references.find slot), RawPayload.reference index)
    | none => (references.add slot identity index, .message message)
  (if finalized then references.popWhile (· ≤ slot) else references,
    ⟨commitment, slot, message.message.isBlock, finalized, payload⟩)

end PayloadReferences

/-- The chunk that is gathered: the fields of `PendingChunkMeta`, and its records. -/
structure PendingChunk where
  estimatedUncompressedSize : ℕ
  firstIndex : ℕ
  lastIndex : ℕ
  pendingSlots : List PendingSlot
  pendingFinalized : List Slot
  records : List RawRecord

def PendingChunk.default : PendingChunk := ⟨0, 0, 0, [], [], []⟩

/-- `RawRecord::estimated_size`. -/
def RawRecord.estimatedSize (size : ParsedMessage → ℕ) (record : RawRecord) : ℕ :=
  match record.payload with
  | .message message => size message + 16
  | .reference _ => 32

namespace PendingChunk

/-- `PendingChunkMeta::push`, with the record. -/
def push (size : ParsedMessage → ℕ) (pending : PendingChunk) (init : Bool) (slot : Slot)
    (head index : ℕ) (record : RawRecord) : PendingChunk where
  estimatedUncompressedSize := pending.estimatedUncompressedSize + record.estimatedSize size
  firstIndex := if pending.records.isEmpty then index else pending.firstIndex
  lastIndex := index
  pendingSlots := pending.pendingSlots ++ if init then [⟨slot, head⟩] else []
  pendingFinalized := pending.pendingFinalized ++ if record.finalized then [slot] else []
  records := pending.records ++ [record]

/-- Whether the last record is a processed one. -/
def isComplete (pending : PendingChunk) : Bool :=
  pending.records.getLast?.any (·.commitment = .processed)

end PendingChunk

/-- What the collector hands on; the position in the sequence is its `seq`. -/
inductive CollectorOutput where
  | rawChunk (chunk : PendingChunk)
  | trim (slot : Slot) (upTo : Option ℕ)

structure Collector where
  pending : PendingChunk
  nextSeq : ℕ
  references : PayloadReferences

def Collector.new : Collector := ⟨.default, 0, .empty⟩

inductive CollectorInput where
  | command (command : WriterCommand)
  | timeout
  /-- the sender is gone and its commands are received -/
  | closed

/-- "incomplete commitment publication in storage collector" -/
inductive CollectorError where
  | incompletePublication
  deriving DecidableEq

namespace Collector

/-- The pending chunk is handed on, if there is one. -/
def flush (s : Collector) : Except CollectorError (Collector × List (ℕ × CollectorOutput)) :=
  if s.pending.records.isEmpty then .ok (s, [])
  else if s.pending.isComplete then
    .ok ({ s with pending := .default, nextSeq := s.nextSeq + 1 }, [(s.nextSeq, .rawChunk s.pending)])
  else .error .incompletePublication

/-- One turn of `run_collector`. -/
def step (size : ParsedMessage → ℕ) (chunkTargetSize : ℕ) :
    Step Collector CollectorInput (ℕ × CollectorOutput) CollectorError
  | s, .command (.restorePayload index message) =>
    .ok ({ s with references := s.references.add message.slot message.payloadIdentity index }, [])
  | s, .command (.pushMessage init slot head index message commitment) =>
    let (references, record) := s.references.record slot index commitment message
    let pending := s.pending.push size init slot head index record
    let s := { s with references, pending }
    if commitment = .processed ∧ chunkTargetSize ≤ pending.estimatedUncompressedSize then s.flush
    else .ok (s, [])
  | s, .command (.removeReplay slot upTo) =>
    match { s with references := s.references.erase slot }.flush with
    | .error e => .error e
    | .ok (s, out) =>
      .ok ({ s with nextSeq := s.nextSeq + 1 }, out ++ [(s.nextSeq, .trim slot upTo)])
  | s, .timeout => if s.pending.isComplete then s.flush else .ok (s, [])
  | s, .closed => s.flush

end Collector

end Richat
