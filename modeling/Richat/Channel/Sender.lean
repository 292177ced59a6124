import Richat.Channel.Dedup
import Richat.Channel.SlotInfo
import Richat.Lib.Machine

/-!
# The sender of the channel

`Sender.push` takes a message of a source through its stages: what is dropped at the door, the
deduplication of several sources, the slot state, the replay journal, the streams of the three
commitments, and the clean-up of slots that cannot get messages anymore.

What a push does outside the sender is a list of effects, in the order of the code: messages put on
a stream, commands sent to the storage writer, and the slot a reconnecting source replays from.

The settings that `to_sender` fixes are `Config`. Metrics, wakers and log lines are left out.
-/

namespace Richat

open Lib

structure Storage where
  commitmentMask : ℕ

namespace Storage

def commitmentBit : CommitmentLevel → ℕ
  | .processed => 1
  | .confirmed => 2
  | .finalized => 4

def replayEnabled (storage : Storage) (commitment : CommitmentLevel) : Bool :=
  storage.commitmentMask &&& commitmentBit commitment ≠ 0

end Storage

/-- The commands to the storage writer. -/
inductive WriterCommand where
  | pushMessage (init : Bool) (slot : Slot) (head index : ℕ) (message : ParsedMessage)
      (commitment : CommitmentLevel)
  | restorePayload (index : ℕ) (message : ParsedMessage)
  | removeReplay (slot : Slot) (upTo : Option ℕ)

inductive Effect where
  /-- a message past deduplication, counted for its source -/
  | received (sourceName : SourceName) (message : ParsedMessage)
  | writer (command : WriterCommand)
  /-- a message on the stream of a commitment, with its place in the journal -/
  | ring (commitment : CommitmentLevel) (slot : Slot) (message : ParsedMessage)
      (replayIndex : Option ℕ)
  | replayFromSlot (slot : Slot)

structure ReplayInfo where
  head : ℕ
  /-- ids of the messages that were durable at the start, with the index of their payload -/
  messages : Option (ℕ → Option ℕ)

def ReplayInfo.new (head : ℕ) : ReplayInfo := ⟨head, none⟩

/-- The settings of a sender. -/
structure Config where
  /-- whether there is a confirmed stream -/
  confirmed : Bool
  /-- whether there is a finalized stream -/
  finalized : Bool
  storage : Option Storage
  storageMaxSlots : ℕ
  maxUnfinalizedSlots : ℕ
  hasher : RandomState

/-- The settings without storage, with both commitment streams. -/
def Config.memory : Config where
  confirmed := true
  finalized := true
  storage := none
  storageMaxSlots := 1
  maxUnfinalizedSlots := 4
  hasher := fun _ => 0

structure Sender where
  slots : SortedMap Slot SlotInfo
  dedup : SortedMap Slot DedupInfo
  slotFinalized : Slot
  /-- newest slot dropped by `maxUnfinalizedSlots`, nothing older is accepted -/
  slotDropped : Slot
  index : ℕ
  replay : SortedMap Slot ReplayInfo
  /-- the next allocation of a message -/
  nextArc : ℕ

/-- The arguments of `Sender::push`. -/
structure PushInput where
  dedupRequired : Bool
  sourceName : SourceName
  message : Message

@[simp] def PushInput.slot (input : PushInput) : Slot := input.message.slotOf

/-- The locals of a push: the replay info of the slot is taken out of the map. -/
structure PushState where
  sender : Sender
  replay : ReplayInfo
  cleanAfterFinalized : Bool

/-! ### Streams -/

/-- `SenderShared::push_stored` over the messages of a push in order, from the journal index
`index`. -/
def pushStored (cfg : Config) (slot slotHead : ℕ) :
    ℕ → List (CommitmentLevel × ParsedMessage) → ℕ × List Effect
  | index, [] => (index, [])
  | index, (commitment, message) :: l =>
    -- processed records are also the restart journal, even when only higher commitments are
    -- exposed for disk replay
    let stored := cfg.storage.any fun storage =>
      commitment = .processed ∨ storage.replayEnabled commitment
    if stored then
      let (next, effects) := pushStored cfg slot slotHead (index + 1) l
      (next, .writer (.pushMessage (index = slotHead) slot slotHead index message commitment) ::
        .ring commitment slot message (some index) :: effects)
    else
      let (next, effects) := pushStored cfg slot slotHead index l
      (next, .ring commitment slot message none :: effects)

namespace Sender

/-- The sender of a process that starts without a journal. -/
def new : Sender where
  slots := .empty
  dedup := .empty
  slotFinalized := 0
  slotDropped := 0
  index := 0
  replay := .empty
  nextArc := 0

/-- No slot has any state yet, as after `to_sender`. -/
structure Initial (s : Sender) : Prop where
  slots : s.slots = .empty
  dedup : s.dedup = .empty

/-- No message was durable at the start. -/
def NoJournal (s : Sender) : Prop :=
  ∀ slot info, s.replay.get? slot = some info → info.messages = none

theorem initial_new : new.Initial := ⟨rfl, rfl⟩

theorem noJournal_new : new.NoJournal := by
  intro slot info h
  cases h

/-- No message up to this slot is accepted. -/
def floor (s : Sender) : Slot := max s.slotFinalized s.slotDropped

/-- Whether the message belongs to a cleared bank. -/
def isCleared (s : Sender) (message : Message) : Bool :=
  match message.bankId with
  | none => false
  | some bankId => !message.isEntryUpdateParent &&
    (s.slots.get? message.slotOf).any fun info => bankId ∈ info.clearedBanks

/-- The stage of a push before the streams: the messages to push, none for a duplicate. -/
def dedupMessage (s : Sender) (input : PushInput) : Except Panic (Sender × List Message) :=
  if input.dedupRequired then
    let dedup := (s.dedup.get? input.slot).getD .default
    match dedup.push input.sourceName input.message with
    | .error e => .error e
    | .ok (dedup, messages) => .ok ({ s with dedup := s.dedup.insert input.slot dedup }, messages)
  else .ok (s, [input.message])

/-- The stored messages of the bank that a status selected. -/
def bankMessages (s : Sender) (slot : Slot) (commitmentBankId : Option (Option BankId)) :
    List ParsedMessage :=
  match commitmentBankId, s.slots.get? slot with
  | some bankId, some info => info.getMessages bankId
  | _, _ => []

/-- Whether the messages of the bank go to confirmed. -/
def isConfirmedBank (s : Sender) (slot : Slot) (bankId : Option BankId) : Bool :=
  (s.slots.get? slot).any fun info => info.confirmedBank = some bankId

end Sender

/-- The messages on the confirmed and finalized streams up to the point where a finalized status
moves the finalized slot. -/
def promoted (cfg : Config) (s : Sender) (slot : Slot) (commitmentBankId : Option (Option BankId))
    (message : ParsedMessage) : List (CommitmentLevel × ParsedMessage) :=
  match message.message with
  | .slot msg =>
    (if cfg.confirmed then [(.confirmed, message)] else []) ++
    (if cfg.finalized then [(.finalized, message)] else []) ++
    (if msg.status = .slotConfirmed ∧ cfg.confirmed then
      (s.bankMessages slot commitmentBankId).map (.confirmed, ·) else [])
  | _ =>
    -- only messages of the confirmed bank, `EntryUpdateParent` is processed-only
    if !message.message.isEntryUpdateParent ∧ s.isConfirmedBank slot message.bankId ∧ cfg.confirmed
    then [(.confirmed, message)] else []

/-- Whether the message is a finalized status. -/
def ParsedMessage.isFinalized (message : ParsedMessage) : Bool :=
  match message.message with
  | .slot msg => msg.status = .slotFinalized
  | _ => false

/-- The messages on the streams from that point on: a finalized status drains the bank. -/
def drained (cfg : Config) (s : Sender) (slot : Slot) (commitmentBankId : Option (Option BankId))
    (message : ParsedMessage) : List (CommitmentLevel × ParsedMessage) :=
  (if message.isFinalized ∧ cfg.finalized then
    (s.bankMessages slot commitmentBankId).map (.finalized, ·) else []) ++
  [(.processed, message)]

/-- What a finalized status does to the sender; the bank it drains leaves with its slot. -/
def Sender.finalize (cfg : Config) (s : Sender) (slot : Slot)
    (commitmentBankId : Option (Option BankId)) : Sender :=
  { s with
    slotFinalized := slot
    slots := if cfg.finalized ∧ commitmentBankId.isSome then s.slots.erase slot else s.slots }

namespace PushState

/-- A message that is not in the journal yet: streams and finalized slot. -/
def route (cfg : Config) (slot slotHead : ℕ) (commitmentBankId : Option (Option BankId))
    (st : PushState) (message : ParsedMessage) : PushState × List Effect :=
  let s := st.sender
  let (index, effects) := pushStored cfg slot slotHead s.index
    (promoted cfg s slot commitmentBankId message)
  let (index, effects') := pushStored cfg slot slotHead index
    (drained cfg s slot commitmentBankId message)
  if message.isFinalized then
    ({ st with
        sender := { s.finalize cfg slot commitmentBankId with index }
        cleanAfterFinalized := true },
      effects ++ .replayFromSlot (slot + 1) :: effects')
  else ({ st with sender := { s with index } }, effects ++ effects')

/-- One message of the array of a received message and its `Block`: a message that was durable at
the start is not published again. -/
def publish (cfg : Config) (slot slotHead : ℕ) (commitmentBankId : Option (Option BankId))
    (st : PushState) (message : ParsedMessage) : Except Panic (PushState × List Effect) :=
  match st.replay.messages with
  | none => .ok (st.route cfg slot slotHead commitmentBankId message)
  | some messages =>
    match message.getId cfg.hasher with
    | .error e => .error e
    | .ok id =>
      match messages id with
      | some index =>
        .ok (st, if cfg.storage.isSome then [.writer (.restorePayload index message)] else [])
      | none =>
        let messages := Function.update messages id (some st.sender.index)
        let st := { st with replay := { st.replay with messages := some messages } }
        .ok (st.route cfg slot slotHead commitmentBankId message)

/-- The slot info of the pushed message, a new one if there is none. -/
def slotInfo (st : PushState) (slot : Slot) : SlotInfo :=
  (st.sender.slots.get? slot).getD (.new st.replay.head)

/-- The slot info is stored, the allocations of the message and its `Block` are taken. -/
def setSlotInfo (st : PushState) (slot : Slot) (info : SlotInfo) : PushState :=
  { st with
    sender :=
      { st.sender with
        slots := st.sender.slots.insert slot info
        nextArc := st.sender.nextArc + 2 } }

/-- One message of the push. -/
def pushMessage (cfg : Config) (slot : Slot) (sourceName : SourceName) (st : PushState)
    (message : Message) : Except Panic (PushState × List Effect) :=
  let parsed : ParsedMessage := ⟨st.sender.nextArc, message⟩
  let info := st.slotInfo slot
  match info.receive parsed (st.sender.nextArc + 1) with
  | .error e => .error e
  | .ok (info', commitmentBankId, block) =>
    match run (publish cfg slot info.index commitmentBankId) (st.setSlotInfo slot info')
        (parsed :: block.toList) with
    | .error e => .error e
    | .ok (st, effects) => .ok (st, .received sourceName parsed :: effects)

end PushState

/-! ### Clean-up -/

namespace Sender

/-- Slots that cannot get messages anymore. The deduplication of the finalized slot is kept. -/
def cleanFinalized (s : Sender) : Sender :=
  { s with
    slots := s.slots.popWhile (· ≤ s.slotFinalized)
    dedup := s.dedup.popWhile (· < s.slotFinalized) }

/-- Finalized stalled, or a source never sends it: the slots dropped can't be confirmed or
finalized anymore. -/
def dropUnfinalized (cfg : Config) (s : Sender) : Sender :=
  { s with
    slots := s.slots.popExcess cfg.maxUnfinalizedSlots
    slotDropped := (s.slots.excess cfg.maxUnfinalizedSlots).foldl max s.slotDropped
    dedup := s.dedup.popExcess cfg.maxUnfinalizedSlots }

/-- First slot that the storage retains. -/
def firstRetained (cfg : Config) (s : Sender) : Slot :=
  match s.replay.lastKey? with
  | some slot => slot - (cfg.storageMaxSlots - 1)
  | none => 0

/-- The trims of the slots below `firstRetained`, each up to the lowest head that is left. -/
def trimMessages (firstRetained : Slot) : List (Σ _ : Slot, ReplayInfo) → List Effect
  | [] => []
  | e :: l =>
    if e.1 < firstRetained then
      .writer (.removeReplay e.1 (l.map (·.2.head)).min?) :: trimMessages firstRetained l
    else []

/-- The retention of the replay map: the trims come with it. -/
def retain (cfg : Config) (s : Sender) : Sender × List Effect :=
  if cfg.storage.isSome then
    let first := s.firstRetained cfg
    ({ s with replay := s.replay.popWhile (· < first) }, trimMessages first s.replay.entries)
  else ({ s with replay := .empty }, [])

end Sender

/-- The end of a push. -/
def PushState.finish (cfg : Config) (slot : Slot) (st : PushState) : Sender × List Effect :=
  let s := { st.sender with replay := st.sender.replay.insert slot st.replay }
  let s := if st.cleanAfterFinalized then s.cleanFinalized else s
  (s.dropUnfinalized cfg).retain cfg

/-- `Sender::push`. -/
def Sender.push (cfg : Config) (s : Sender) (input : PushInput) :
    Except Panic (Sender × List Effect) :=
  -- nothing can be received after finalized slot status
  if input.slot ≤ s.floor then .ok (s, [])
  -- messages of a cleared (replaced) bank are invalid
  else if s.isCleared input.message then .ok (s, [])
  else
    match s.dedupMessage input with
    | .error e => .error e
    | .ok (s, messages) =>
      if messages.isEmpty then .ok (s, [])
      else
        let replay := (s.replay.get? input.slot).getD (.new s.index)
        match run (PushState.pushMessage cfg input.slot input.sourceName) ⟨s, replay, false⟩
            messages with
        | .error e => .error e
        | .ok (st, effects) =>
          let (s, trims) := st.finish cfg input.slot
          .ok (s, effects ++ trims)

/-- What `Sender::begin_live_epoch` does to the sender: all slots are abandoned. -/
def Sender.beginLiveEpoch (s : Sender) : Sender :=
  { s with slots := .empty, dedup := .empty, replay := .empty }

end Richat
