import Richat.Channel.SlotHeads
import Richat.Grpc.SubscribeClient
import Richat.Lib.Protobuf

/-!
# The cache of a message worker

A worker keeps the messages that its clients read last, one cache for each commitment, and with each
message the updates that were encoded from it, so that clients that get the same update share its bytes.

`MessagesCache::try_recv` asks the receiver only for a message that is not in the cache;
`SharedEncoder::encode` encodes an update in one piece for the first client that asks for its shape, and
keeps the body for the second one. `CacheWorker.step` is an action of the sender, or one turn of the
loop of a client: a `try_recv` at its position with the encoding of the updates of its filter. The
receiver reads the tail and then one cell: what it returns is right at one of the two instants, so it is
one step.

What is encoded after the filters is a parameter, it depends on the update only. A subtraction that
underflows panics or wraps around, depending on the build.
-/

namespace Richat

open Lib Protobuf

/-! ### Updates -/

/-- `FilterAccountDataSlices`. -/
abbrev DataSlices := List (ℕ × ℕ)

/-- An update with the message it is made from. -/
inductive FilteredUpdateType where
  | slot (message : MessageSlot)
  | account (message : MessageAccount) (dataSlices : DataSlices)
  | transaction (message : MessageTransaction)
  | transactionStatus (message : MessageTransaction)
  | entry (message : MessageEntry)
  | blockMeta (message : MessageBlockMeta)
  | block (message : MessageBlock) (accounts transactions : List ℕ) (entries : Bool)
      (dataSlices : DataSlices)
  | blockFooter (message : MessageBlockFooter) (includeCertificates : Bool)
  | entryUpdateParent (message : MessageEntryUpdateParent)

def FilteredUpdateType.message : FilteredUpdateType → Message
  | slot message => .slot message
  | account message _ => .account message
  | transaction message => .transaction message
  | transactionStatus message => .transaction message
  | entry message => .entry message
  | blockMeta message => .blockMeta message
  | block message .. => .block message
  | blockFooter message _ => .blockFooter message
  | entryUpdateParent message => .entryUpdateParent message

structure FilteredUpdate where
  filters : List String
  filteredUpdate : FilteredUpdateType

/-- A filter with the updates that it makes of a message. -/
structure UpdatesFilter where
  getUpdatesRef : ParsedMessage → List FilteredUpdate
  message_eq : ∀ message, ∀ update ∈ getUpdatesRef message,
    update.filteredUpdate.message = message.message

/-- No updates of any message. -/
def UpdatesFilter.empty : UpdatesFilter := ⟨fun _ => [], fun _ _ h => (by cases h)⟩

def encodeFilters (filters : List String) : Bytes :=
  filters.flatMap fun filter => bytesEncode 1 filter.toUTF8.data.toList

/-- `FilteredUpdate::encode_to_vec`. -/
def FilteredUpdate.encodeToVec (encodeUpdate : FilteredUpdateType → Bytes) (update : FilteredUpdate) :
    Bytes :=
  encodeFilters update.filters ++ encodeUpdate update.filteredUpdate

/-- `encode_body`: the update without the filters. -/
def encodeBody (encodeUpdate : FilteredUpdateType → Bytes) (update : FilteredUpdate) : Bytes :=
  FilteredUpdate.encodeToVec encodeUpdate ⟨[], update.filteredUpdate⟩

structure SharedEncodedUpdate where
  filters : Bytes
  body : Bytes

namespace SharedEncodedUpdate

def new (filters : List String) (body : Bytes) : SharedEncodedUpdate := ⟨encodeFilters filters, body⟩

/-- An update that was encoded in one piece. -/
def ofVec (body : Bytes) : SharedEncodedUpdate := ⟨[], body⟩

def toVec (update : SharedEncodedUpdate) : Bytes := update.filters ++ update.body

end SharedEncodedUpdate

/-! ### The bodies of a message -/

/-- What besides the message changes the body. -/
inductive BodyKey where
  | slot
  | account (dataSlices : DataSlices)
  | transaction
  | transactionStatus
  | entry
  | blockMeta
  | block (accounts transactions : List ℕ) (entries : Bool) (dataSlices : DataSlices)
  | blockFooter (includeCertificates : Bool)
  | entryUpdateParent
  deriving DecidableEq

namespace BodyKey

def new : FilteredUpdateType → BodyKey
  | .slot _ => slot
  | .account _ dataSlices => account dataSlices
  | .transaction _ => transaction
  | .transactionStatus _ => transactionStatus
  | .entry _ => entry
  | .blockMeta _ => blockMeta
  | .block _ accounts transactions entries dataSlices => block accounts transactions entries dataSlices
  | .blockFooter _ includeCertificates => blockFooter includeCertificates
  | .entryUpdateParent _ => entryUpdateParent

def isMatch (key : BodyKey) (update : FilteredUpdateType) : Bool :=
  match key, update with
  | slot, .slot _ | transaction, .transaction _ | transactionStatus, .transactionStatus _
  | entry, .entry _ | blockMeta, .blockMeta _ | entryUpdateParent, .entryUpdateParent _ => true
  | blockFooter includeCertificates, .blockFooter _ updateIncludeCertificates =>
    includeCertificates = updateIncludeCertificates
  | account dataSlices, .account _ updateDataSlices => dataSlices = updateDataSlices
  | block accounts transactions entries dataSlices,
      .block _ updateAccounts updateTransactions updateEntries updateDataSlices =>
    entries = updateEntries ∧ dataSlices = updateDataSlices ∧ accounts = updateAccounts ∧
      transactions = updateTransactions
  | _, _ => false

end BodyKey

/-- A subtraction of unsigned numbers. -/
def subU64 (overflowChecks : Bool) (a b : ℕ) : Except String ℕ :=
  if b ≤ a then .ok (a - b)
  else if overflowChecks then .error "attempt to subtract with overflow"
  else .ok (a + 2 ^ 64 - b)

structure EncodeCache where
  bodies : List (BodyKey × Option Bytes)
  encodedBytes : ℕ

namespace EncodeCache

/-- Shapes beyond this are encoded for each client. -/
def maxBodies : ℕ := 8

def default : EncodeCache := ⟨[], 0⟩

def find (cache : EncodeCache) (update : FilteredUpdate) : Option ℕ :=
  cache.bodies.findIdx? (·.1.isMatch update.filteredUpdate)

def get (cache : EncodeCache) (update : FilteredUpdate) : Option Bytes :=
  (cache.find update).bind fun idx => (cache.bodies[idx]?).bind (·.2)

/-- Whether the shape was asked for before; otherwise it is remembered, if there is room. -/
def markSeen (cache : EncodeCache) (update : FilteredUpdate) : EncodeCache × Bool :=
  if (cache.find update).isSome then (cache, true)
  else if cache.bodies.length < maxBodies then
    ({ cache with bodies := cache.bodies ++ [(.new update.filteredUpdate, none)] }, false)
  else (cache, false)

/-- `false` if the cache is full. -/
def insert (overflowChecks : Bool) (cache : EncodeCache) (update : FilteredUpdate) (body : Bytes) :
    Except String (EncodeCache × Bool) :=
  match cache.find update with
  | some idx =>
    match cache.bodies[idx]? with
    | none => .error "index out of bounds"
    | some (key, prev) =>
      let bodies := cache.bodies.set idx (key, some body)
      match prev with
      | some prev =>
        match subU64 overflowChecks cache.encodedBytes prev.length with
        | .error e => .error e
        | .ok encodedBytes => .ok (⟨bodies, encodedBytes + body.length⟩, true)
      | none => .ok (⟨bodies, cache.encodedBytes + body.length⟩, true)
  | none =>
    if cache.bodies.length < maxBodies then
      .ok (⟨cache.bodies ++ [(.new update.filteredUpdate, some body)],
        cache.encodedBytes + body.length⟩, true)
    else .ok (cache, false)

end EncodeCache

/-! ### The bodies of all messages -/

structure EncodedCache where
  mask : ℕ
  buffer : ℕ → EncodeCache
  /-- no bodies are cached for positions below -/
  tail : ℕ
  bytes : ℕ
  bytesMax : ℕ

namespace EncodedCache

def setCell (c : EncodedCache) (idx : ℕ) (cell : EncodeCache) : EncodedCache :=
  { c with buffer := Function.update c.buffer idx cell }

def clear (overflowChecks : Bool) (c : EncodedCache) (idx : ℕ) : Except String EncodedCache :=
  match subU64 overflowChecks c.bytes (c.buffer idx).encodedBytes with
  | .error e => .error e
  | .ok bytes => .ok { c with bytes, buffer := Function.update c.buffer idx .default }

/-- The loop of `evict`, of at most so many turns. -/
def evictLoop (overflowChecks : Bool) (pos : ℕ) : ℕ → EncodedCache → Except String EncodedCache
  | 0, c => .ok c
  | n + 1, c =>
    if c.bytes ≥ c.bytesMax ∧ c.tail < pos then
      match c.clear overflowChecks (c.tail &&& c.mask) with
      | .error e => .error e
      | .ok c => evictLoop overflowChecks pos n { c with tail := c.tail + 1 }
    else .ok c

/-- Bodies of messages before `pos` are dropped until there is room. -/
def evict (overflowChecks : Bool) (c : EncodedCache) (pos : ℕ) : Except String (EncodedCache × Bool) :=
  let c := { c with tail := max c.tail (pos - c.mask) }
  match c.evictLoop overflowChecks pos (pos - c.tail) with
  | .error e => .error e
  | .ok c => .ok (c, c.bytes < c.bytesMax)

/-- `SharedEncoder::encode` of the message at `pos`. -/
def encode (overflowChecks : Bool) (encodeUpdate : FilteredUpdateType → Bytes) (c : EncodedCache)
    (pos : ℕ) (update : FilteredUpdate) : Except String (EncodedCache × SharedEncodedUpdate) :=
  let plain := SharedEncodedUpdate.ofVec (update.encodeToVec encodeUpdate)
  if pos < c.tail then .ok (c, plain)
  else
    let idx := pos &&& c.mask
    match (c.buffer idx).get update with
    | some body => .ok (c, .new update.filters body)
    | none =>
      let (cell, seen) := (c.buffer idx).markSeen update
      let c := c.setCell idx cell
      -- the first client of a shape encodes as usual
      if ¬ seen then .ok (c, plain)
      else
        match c.evict overflowChecks pos with
        | .error e => .error e
        | .ok (c, false) => .ok (c, plain)
        | .ok (c, true) =>
          let body := encodeBody encodeUpdate update
          match (c.buffer idx).insert overflowChecks update body with
          | .error e => .error e
          | .ok (cell, inserted) =>
            let c := c.setCell idx cell
            .ok (if inserted then { c with bytes := c.bytes + body.length } else c,
              .new update.filters body)

/-- The loop over the updates of a client. -/
def encodeAll (overflowChecks : Bool) (encodeUpdate : FilteredUpdateType → Bytes) (pos : ℕ) :
    List FilteredUpdate → EncodedCache → Except String (EncodedCache × List SharedEncodedUpdate)
  | [], c => .ok (c, [])
  | update :: updates, c =>
    match c.encode overflowChecks encodeUpdate pos update with
    | .error e => .error e
    | .ok (c, encoded) =>
      match encodeAll overflowChecks encodeUpdate pos updates c with
      | .error e => .error e
      | .ok (c, rest) => .ok (c, encoded :: rest)

end EncodedCache

/-! ### The messages -/

/-- What `try_recv` returns. -/
abbrev Received := Except RecvError (Option ParsedMessage)

/-- `ReceiverSync::try_recv`, of the stream of the commitment if there is one. -/
def ReceiverSync.tryRecv (shared : Option SharedChannel) (head : ℕ) : Received :=
  match shared with
  | none => .error .closed
  | some shared =>
    if head ≤ shared.tail then
      let item := shared.item head
      if item.pos ≠ head then .error .lagged
      else
        match item.data with
        | none => .error .lagged
        | some message => .ok (some message)
    else .ok none

structure MessagesCacheItem where
  pos : ℕ
  msg : Option ParsedMessage

structure MessagesCache where
  head : ℕ
  mask : ℕ
  buffer : ℕ → MessagesCacheItem
  encoded : EncodedCache

namespace MessagesCache

/-- `MessagesCache::new`, with the rounding of `worker_messages`. -/
def new (messagesCachedMax encodedBytesMax : ℕ) : MessagesCache :=
  let maxMessages := nextPowerOfTwo messagesCachedMax
  { head := 0
    mask := maxMessages - 1
    buffer := fun _ => ⟨2 ^ 64 - 1, none⟩
    encoded := ⟨maxMessages - 1, fun _ => .default, 0, 0, encodedBytesMax⟩ }

def getIdx (c : MessagesCache) (pos : ℕ) : ℕ := pos &&& c.mask

/-- `MessagesCache::try_recv`, and whether there is an encoder for the message. -/
def tryRecv (overflowChecks : Bool) (c : MessagesCache) (shared : Option SharedChannel) (head : ℕ) :
    Except String (MessagesCache × Received × Bool) :=
  let c := if head > c.head then { c with head } else c
  match subU64 overflowChecks c.head c.mask with
  | .error e => .error e
  | .ok low =>
    let inrange := head ≥ low
    let idx := c.getIdx head
    if inrange ∧ (c.buffer idx).pos = head then .ok (c, .ok (c.buffer idx).msg, true)
    else
      match ReceiverSync.tryRecv shared head with
      | .error e => .ok (c, .error e, false)
      | .ok none => .ok (c, .ok none, false)
      | .ok (some item) =>
        if ¬ inrange then .ok (c, .ok (some item), false)
        else
          -- the encoded updates of the previous message are dropped
          match c.encoded.clear overflowChecks idx with
          | .error e => .error e
          | .ok encoded =>
            .ok ({ c with encoded, buffer := Function.update c.buffer idx ⟨head, some item⟩ },
              .ok (some item), true)

end MessagesCache

/-! ### A worker -/

/-- A position of the ring: no message has the one of an empty cell. -/
abbrev RingPos := { pos : ℕ // pos < 2 ^ 64 - 1 }

/-- A stream, if the commitment has one, and the cache for it. -/
structure CacheWorker where
  channel : Option Channel
  cache : MessagesCache

inductive CacheAction where
  | channel (action : ChannelAction)
  /-- a client at a position, with its filter -/
  | recv (head : RingPos) (filter : UpdatesFilter)

/-- What a client got, beside what its receiver would have returned. -/
structure CacheRecv where
  head : ℕ
  filter : UpdatesFilter
  result : Received
  plain : Received
  encoded : List (FilteredUpdate × Bytes)

inductive CacheEvent where
  | channel (event : ChannelEvent)
  | recv (recv : CacheRecv)

inductive CacheStuck where
  /-- the action of the sender is not possible -/
  | blocked
  | panic (message : String)

namespace CacheWorker

/-- `cfg` is the setting of the channel, if the commitment has a stream. -/
def new (cfg : Option ConfigChannelInner) (messagesCachedMax encodedBytesMax : ℕ) : CacheWorker :=
  ⟨cfg.map .new, .new messagesCachedMax encodedBytesMax⟩

/-- The stream as the receiver sees it. -/
def shared (s : CacheWorker) : Option SharedChannel := s.channel.map (·.sender.shared)

/-- One turn of the loop of a client. -/
def recv (overflowChecks : Bool) (encodeUpdate : FilteredUpdateType → Bytes) (s : CacheWorker)
    (head : ℕ) (filter : UpdatesFilter) : Except String (CacheWorker × CacheRecv) :=
  let plain := ReceiverSync.tryRecv s.shared head
  match s.cache.tryRecv overflowChecks s.shared head with
  | .error e => .error e
  | .ok (cache, .ok (some message), encoder) =>
    let updates := filter.getUpdatesRef message
    if encoder then
      match cache.encoded.encodeAll overflowChecks encodeUpdate head updates with
      | .error e => .error e
      | .ok (encoded, outs) =>
        .ok ({ s with cache := { cache with encoded } },
          ⟨head, filter, .ok (some message), plain, updates.zip (outs.map (·.toVec))⟩)
    else
      let outs := updates.map fun update =>
        (SharedEncodedUpdate.ofVec (update.encodeToVec encodeUpdate)).toVec
      .ok ({ s with cache }, ⟨head, filter, .ok (some message), plain, updates.zip outs⟩)
  | .ok (cache, result, _) => .ok ({ s with cache }, ⟨head, filter, result, plain, []⟩)

def step (size : ParsedMessage → ℕ) (overflowChecks : Bool)
    (encodeUpdate : FilteredUpdateType → Bytes) : Step CacheWorker CacheAction CacheEvent CacheStuck
  | ⟨some channel, cache⟩, .channel action =>
    match Channel.step size channel action with
    | .error _ => .error .blocked
    | .ok (channel, events) => .ok (⟨some channel, cache⟩, events.map .channel)
  | ⟨none, _⟩, .channel _ => .error .blocked
  | s, .recv head filter =>
    match s.recv overflowChecks encodeUpdate head filter with
    | .error e => .error (.panic e)
    | .ok (s, event) => .ok (s, [.recv event])

end CacheWorker

end Richat
