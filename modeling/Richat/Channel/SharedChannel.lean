import Richat.Channel.Dedup
import Richat.Lib.Machine
import Richat.Lib.SortedMap
import Mathlib.Data.List.DropRight

/-!
# The ring of a commitment stream

`SharedChannel` is what the sender and the receivers of one stream share: the cells, the published
positions, and the first position of every slot that is complete in memory. `SenderShared` is the
sender's side. A push holds the lock of the slots from its first to its last line, but a receiver
takes only the locks of single cells, so a push is cut into what a receiver can see of it:

* `store` writes the cell of the next position;
* `dropHead` removes the oldest message, while there are too many bytes;
* `publish` stores the positions and updates the slots.

`Channel.step` lets these happen one at a time. The size of a message in bytes is the parameter
`size`. Positions do not wrap around.
-/

namespace Richat

open Lib

/-- `u64::MAX`: the replay index of an item that is not in the journal. -/
def noReplayIndex : ℕ := 2 ^ 64 - 1

/-- A cell of the ring. -/
structure Item where
  replayIndex : ℕ
  pos : ℕ
  slot : Slot
  data : Option ParsedMessage

structure SharedChannel where
  head : ℕ
  replayFloor : ℕ
  recoveryEpoch : ℕ
  tail : ℕ
  mask : ℕ
  buffer : ℕ → Item
  /-- the head of each slot: the position of its first message -/
  slots : SortedMap Slot ℕ

namespace SharedChannel

def new (maxMessages : ℕ) : SharedChannel where
  head := maxMessages + 1
  replayFloor := 0
  recoveryEpoch := 0
  tail := maxMessages
  mask := maxMessages - 1
  buffer := fun i => ⟨noReplayIndex, i, 0, none⟩
  slots := .empty

def getIdx (shared : SharedChannel) (pos : ℕ) : ℕ := pos &&& shared.mask

/-- The cell of the position. -/
def item (shared : SharedChannel) (pos : ℕ) : Item := shared.buffer (shared.getIdx pos)

def setItem (shared : SharedChannel) (pos : ℕ) (item : Item) : SharedChannel :=
  { shared with buffer := Function.update shared.buffer (shared.getIdx pos) item }

/-- A message of the journal leaves the ring: earlier positions of the journal are not in memory. -/
def raiseFloor (shared : SharedChannel) (item : Item) : SharedChannel :=
  if item.replayIndex = noReplayIndex then shared
  else { shared with replayFloor := item.replayIndex + 1 }

end SharedChannel

structure SenderShared where
  shared : SharedChannel
  head : ℕ
  tail : ℕ
  bytesTotal : ℕ
  bytesMax : ℕ
  /-- slots up to this one have lost messages -/
  incompleteThrough : Option Slot

namespace SenderShared

def new (shared : SharedChannel) (maxMessages maxBytes : ℕ) : SenderShared where
  shared := shared
  head := maxMessages + 1
  tail := maxMessages
  bytesTotal := 0
  bytesMax := maxBytes
  incompleteThrough := none

variable (size : ParsedMessage → ℕ)

/-- The message of the head leaves its cell. -/
def takeHead (s : SenderShared) (item : Item) (message : ParsedMessage) : SenderShared :=
  { s with
    head := s.head + 1
    bytesTotal := s.bytesTotal - size message
    shared := s.shared.raiseFloor item }

/-- The tail moves, and the cell of the new tail is written. The slot of the message that was in
the cell comes with it. -/
def store (s : SenderShared) (slot : Slot) (message : ParsedMessage) (replayIndex : Option ℕ) :
    SenderShared × Option Slot :=
  let tail := s.tail + 1
  let s := { s with tail, bytesTotal := s.bytesTotal + size message }
  let item := s.shared.item tail
  let item' : Item := ⟨replayIndex.getD noReplayIndex, tail, slot, some message⟩
  match item.data with
  | some old =>
    let s := s.takeHead size item old
    ({ s with shared := s.shared.setItem tail item' }, some item.slot)
  | none => ({ s with shared := s.shared.setItem tail item' }, none)

/-- Whether messages have to leave because of their bytes. -/
def hasExtra (s : SenderShared) : Bool := s.bytesTotal ≥ s.bytesMax ∧ s.head < s.tail

/-- One turn of the loop that drops messages by extra bytes; `none` is the panic "nothing to remove
to keep bytes under limit". -/
def dropHead (s : SenderShared) (removed : Option Slot) : Option (SenderShared × Option Slot) :=
  let item := s.shared.item s.head
  match item.data with
  | none => none
  | some old =>
    let shared := s.shared.setItem s.head { item with data := none }
    some ({ s with shared }.takeHead size item old, some (removed.elim item.slot (max item.slot)))

/-- The loop, for at most `n` turns. -/
def dropExtra : ℕ → SenderShared → Option Slot → Option (SenderShared × Option Slot)
  | 0, s, removed => some (s, removed)
  | n + 1, s, removed =>
    if s.hasExtra then
      match s.dropHead size removed with
      | none => none
      | some (s, removed) => dropExtra n s removed
    else some (s, removed)

/-- The new positions for the receivers, the head of the slot, and the slots that are not complete
anymore. -/
def publish (s : SenderShared) (slot : Slot) (removed : Option Slot) : SenderShared :=
  let slots := s.shared.slots
  let slots := if s.incompleteThrough.all (· < slot) ∧ ¬ slots.contains slot then
    slots.insert slot s.tail else slots
  let shared := { s.shared with head := s.head, tail := s.tail }
  match removed with
  | none => { s with shared := { shared with slots } }
  | some removed =>
    let removeUpto := max (s.incompleteThrough.getD 0) removed
    { s with
      shared := { shared with slots := slots.popWhile (· ≤ removeUpto) }
      incompleteThrough := some removeUpto }

/-- `SenderShared::push`. -/
def push (s : SenderShared) (slot : Slot) (message : ParsedMessage) (replayIndex : Option ℕ) :
    Option SenderShared :=
  let (s, removed) := s.store size slot message replayIndex
  match s.dropExtra size (s.tail - s.head) removed with
  | none => none
  | some (s, removed) => some (s.publish slot removed)

/-- What `Sender::begin_live_epoch` does to the stream. -/
def beginLiveEpoch (s : SenderShared) (index : ℕ) : SenderShared :=
  { s with
    shared := { s.shared with
      slots := .empty
      replayFloor := index
      recoveryEpoch := s.shared.recoveryEpoch + 1 } }

end SenderShared

/-! ### One action at a time -/

/-- The settings of a channel. -/
structure ConfigChannelInner where
  maxMessages : ℕ
  maxBytes : ℕ

/-- A stream, with the slot and the removed slot of the push that is under way. -/
structure Channel where
  sender : SenderShared
  pushing : Option (Slot × Option Slot)

inductive ChannelAction where
  | store (slot : Slot) (message : ParsedMessage) (replayIndex : Option ℕ)
  | dropHead
  | publish
  | beginLiveEpoch (index : ℕ)

inductive ChannelEvent where
  /-- the item of a pushed message -/
  | stored (item : Item)
  | epoch

/-- The order of the actions is not the one of a push, or the push panics. -/
inductive Stuck where
  | order
  | panic

namespace Channel

/-- The stream as `Messages::new` and `Messages::to_sender` make it. -/
def new (cfg : ConfigChannelInner) : Channel :=
  let maxMessages := nextPowerOfTwo cfg.maxMessages
  ⟨.new (.new maxMessages) maxMessages cfg.maxBytes, none⟩

def step (size : ParsedMessage → ℕ) : Step Channel ChannelAction ChannelEvent Stuck
  | ⟨s, none⟩, .store slot message replayIndex =>
    let (s, removed) := s.store size slot message replayIndex
    .ok (⟨s, some (slot, removed)⟩, [.stored (s.shared.item s.tail)])
  | ⟨s, some (slot, removed)⟩, .dropHead =>
    if s.hasExtra then
      match s.dropHead size removed with
      | none => .error .panic
      | some (s, removed) => .ok (⟨s, some (slot, removed)⟩, [])
    else .error .order
  | ⟨s, some (slot, removed)⟩, .publish =>
    if s.hasExtra then .error .order else .ok (⟨s.publish slot removed, none⟩, [])
  | ⟨s, none⟩, .beginLiveEpoch index => .ok (⟨s.beginLiveEpoch index, none⟩, [.epoch])
  | _, _ => .error .order

end Channel

namespace ChannelEvent

def isEpoch : ChannelEvent → Bool
  | stored _ => false
  | epoch => true

def item? : ChannelEvent → Option Item
  | stored item => some item
  | epoch => none

end ChannelEvent

/-- The items pushed so far. -/
def storedItems (events : List ChannelEvent) : List Item := events.filterMap (·.item?)

/-- The items pushed before the last live epoch began. -/
def beforeEpoch (events : List ChannelEvent) : List Item :=
  storedItems (events.rdropWhile (!·.isEpoch))

/-- The items pushed since then. -/
def sinceEpoch (events : List ChannelEvent) : List Item :=
  storedItems (events.rtakeWhile (!·.isEpoch))

end Richat
