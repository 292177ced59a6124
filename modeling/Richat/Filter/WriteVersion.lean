import Richat.Filter.Containment
import Richat.Filter.Pipeline
import Richat.Lib.Overwrite

/-!
# The write version of an account

`update_write_version` puts another write version into an account. In a message of the limited parser it does so in
the buffer: two varints get another length, so what stands between them and after them is moved with raw copies, and
the places that the message stores are moved too. `UpdateFault` are the ways this can go wrong; additions do not
overflow, because a buffer has at most `isizeMax` bytes.

`IsLens` is what is asked of the updates, `Movable` the condition on a message for it.
-/

namespace Richat.Filter

open Lib Lib.Protobuf

inductive UpdateFault where
  /-- a subtraction below zero, which wraps around without overflow checks -/
  | underflow
  /-- `&buffer[offset..]`, or a varint that is written over the end -/
  | sliceIndex
  /-- `expect("already verified")` -/
  | alreadyVerified
  /-- a raw copy that leaves the buffer -/
  | rawCopy
  deriving DecidableEq

def subtract (a b : ℕ) : Except UpdateFault ℕ := if b ≤ a then .ok (a - b) else .error .underflow

/-- The varint at the offset, and how many bytes it takes. -/
def readVarint (buffer : Bytes) (offset : ℕ) : Except UpdateFault (ℕ × ℕ) :=
  if offset ≤ buffer.length then
    match decodeVarint (buffer.drop offset) with
    | .ok (value, rest) => .ok (value, (buffer.drop offset).length - rest.length)
    | .error _ => .error .alreadyVerified
  else .error .sliceIndex

/-- `buffer.resize(new_end, 0)`, if the buffer is shorter. -/
def resize (buffer : Bytes) (newEnd : ℕ) : Bytes := buffer ++ List.replicate (newEnd - buffer.length) 0

/-- `std::ptr::copy` inside the buffer: the parts may overlap. -/
def ptrCopy (buffer : Bytes) (source target count : ℕ) : Except UpdateFault Bytes :=
  if source + count ≤ buffer.length ∧ target + count ≤ buffer.length then
    .ok (overwrite buffer target ((buffer.drop source).take count))
  else .error .rawCopy

/-- `encode_varint` into the slice from the offset on. -/
def writeVarint (buffer : Bytes) (offset value : ℕ) : Except UpdateFault Bytes :=
  if offset + (encodeVarint value).length ≤ buffer.length then .ok (overwrite buffer offset (encodeVarint value))
  else .error .sliceIndex

/-- The length of a varint, and the one it gets. -/
structure VarintLen where
  current : ℕ
  new : ℕ

/-- `offset + new - current` -/
def VarintLen.moved (len : VarintLen) (offset : ℕ) : Except UpdateFault ℕ := subtract (offset + len.new) len.current

/-- A range is moved with the length of the account, and with the write version if it stands after it. -/
def moveRange (msgSize version : VarintLen) (writeVersionNew : ℕ) (range : Range) : Except UpdateFault Range := do
  let start ← msgSize.moved range.start
  let stop ← msgSize.moved range.stop
  if writeVersionNew < start then return ⟨← version.moved start, ← version.moved stop⟩
  return ⟨start, stop⟩

def moveOffset (msgSize version : VarintLen) (writeVersionNew offset : ℕ) : Except UpdateFault ℕ := do
  let offset ← msgSize.moved offset
  if writeVersionNew < offset then version.moved offset
  else return offset

def LimitedAccount.updateWriteVersion (msg : LimitedAccount) (writeVersion : UInt64) :
    Except UpdateFault LimitedAccount := do
  -- calculate current and new len of write_version
  let (_, wvSizeCurrent) ← readVarint msg.buffer msg.writeVersion
  let version : VarintLen := ⟨wvSizeCurrent, encodedLenVarint writeVersion.toNat⟩
  -- calculate current and new len of account msg
  let (size, msgSizeCurrent) ← readVarint msg.buffer msg.accountOffset
  let size ← version.moved size
  let msgSize : VarintLen := ⟨msgSizeCurrent, encodedLenVarint size⟩
  -- resize if required
  let newEnd ← version.moved (← msgSize.moved msg.range.stop)
  let buffer := resize msg.buffer newEnd
  -- copy data before write_version
  let endCurrent := msg.accountOffset + msgSize.current
  let buffer ← ptrCopy buffer endCurrent (msg.accountOffset + msgSize.new) (← subtract msg.writeVersion endCurrent)
  -- copy data after write_version
  let writeVersionNew ← msgSize.moved msg.writeVersion
  let endCurrent := msg.writeVersion + version.current
  let buffer ← ptrCopy buffer endCurrent (writeVersionNew + version.new) (← subtract msg.range.stop endCurrent)
  -- save new message size and write_version
  let buffer ← writeVarint buffer msg.accountOffset size
  let buffer ← writeVarint buffer writeVersionNew writeVersion.toNat
  return { msg with
    buffer
    range := ⟨msg.range.start, newEnd⟩
    data := ← moveRange msgSize version writeVersionNew msg.data
    txnSignatureOffset := ← msg.txnSignatureOffset.mapM (moveOffset msgSize version writeVersionNew)
    writeVersion := writeVersionNew }

/-- An account with its size, which is a field of the messages of prost. -/
structure SizedAccount where
  msg : MessageAccount
  size : ℕ

namespace SizedAccount

/-- A message as it is parsed. -/
def ofParsed (data : Bytes) (msg : MessageAccount) : SizedAccount := ⟨msg, pubkeyBytes + pubkeyBytes + data.length + 20⟩

/-- `MessageAccount::update_write_version`. -/
def updateWriteVersion (me : SizedAccount) (writeVersion : UInt64) : Except UpdateFault SizedAccount :=
  match me.msg with
  | .limited msg => do return { me with msg := .limited (← msg.updateWriteVersion writeVersion) }
  | .prost msg => do
    let size ← subtract (me.size + encodedLenVarint writeVersion.toNat)
      (encodedLenVarint msg.account.writeVersion.toNat)
    return ⟨.prost { msg with account := { msg.account with writeVersion } }, size⟩

def updateWriteVersions (me : SizedAccount) (writeVersions : List UInt64) : Except UpdateFault SizedAccount :=
  writeVersions.foldlM updateWriteVersion me

end SizedAccount

/-! ### What is asked of the updates -/

namespace MessageAccount

/-- No accessor slices out of range. -/
def Readable : MessageAccount → Prop
  | limited msg => Succeeds (indexRange msg.buffer msg.data) ∧ Succeeds (indexVarint msg.buffer msg.writeVersion) ∧
      ∀ offset ∈ msg.txnSignatureOffset, Succeeds (indexRange msg.buffer ⟨offset, offset + signatureBytes⟩)
  | prost _ => True

/-- The bytes of the message, without filters and data slices. -/
def encoded (msg : MessageAccount) : Except FilterPanic Bytes := do
  return (← FilteredUpdate.messageOf [] (.account msg [])).encodeRaw

end MessageAccount

/-- Only the write version is another one, if there is a new one. -/
structure SameBut (msg msg' : MessageAccount) (writeVersion : Option UInt64) : Prop where
  readable : msg'.Readable
  view : msg'.view = { msg.view with writeVersion := writeVersion.or msg.view.writeVersion }
  isStartup : msg'.isStartup = msg.isStartup
  createdAt : msg'.createdAt = msg.createdAt

/-- The updates change the write version and nothing else, also of what is read back. -/
def IsLens (gen : Generated) (encoding : MessageParserEncoding) (me : SizedAccount) : Prop :=
  ∀ writeVersions, ∃ me', me.updateWriteVersions writeVersions = .ok me' ∧
    SameBut me.msg me'.msg writeVersions.getLast? ∧ ∃ bytes, me'.msg.encoded = .ok bytes ∧
      ∃ msg, Message.parse gen bytes encoding = .ok (.account msg) ∧ SameBut me'.msg msg none

/-! ### When they do -/

/-- A range that is moved with the length of the account alone reads the same. -/
def StaysReadable (buffer : Bytes) (msgSize : VarintLen) (range : Range) : Prop :=
  msgSize.current ≤ range.start + msgSize.new ∧
    slice buffer ⟨range.start + msgSize.new - msgSize.current, range.stop + msgSize.new - msgSize.current⟩ =
      slice buffer range

/-- The ranges that a message stores. -/
def LimitedAccount.ranges (msg : LimitedAccount) : List Range :=
  msg.data :: msg.txnSignatureOffset.toList.map fun offset => ⟨offset, offset + signatureBytes⟩

/-- The write version stands in the last nested account; and what does not stand in it reads the same when it is moved
with the length of that account, for a write version of any length. -/
def LimitedAccount.Movable (msg : LimitedAccount) : Prop :=
  msg.accountOffset < msg.writeVersion ∧
    ∀ size msgSizeCurrent value wvSizeCurrent, readVarint msg.buffer msg.accountOffset = .ok (size, msgSizeCurrent) →
      readVarint msg.buffer msg.writeVersion = .ok (value, wvSizeCurrent) →
      ∀ writeVersion : UInt64, ∀ range ∈ msg.ranges, range.start < msg.accountOffset →
        StaysReadable msg.buffer
          ⟨msgSizeCurrent, encodedLenVarint (size + encodedLenVarint writeVersion.toNat - wvSizeCurrent)⟩ range

def MessageAccount.Movable : MessageAccount → Prop
  | limited msg => msg.Movable
  | prost _ => True

end Richat.Filter
