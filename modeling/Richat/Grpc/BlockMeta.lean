import Richat.Message
import Mathlib.Logic.Function.Basic

/-!
# The block meta storage

The state behind `getLatestBlockhash`, `getBlockHeight`, `getSlot` and `isBlockhashValid`: one entry a
slot, and the slot of each commitment. A slot can have several candidates, one for each of its banks; the
entry shows the latest of them until a status selects a bank.

A block meta has its blockhash and its height in the body, which `BlockMetaFields` reads.
-/

namespace Richat

/-- What is read of a block meta. -/
structure BlockMetaFields where
  blockhash : MessageBlockMeta → String
  blockHeight : MessageBlockMeta → ℕ

namespace BlockMetaStorage

/-- `MAX_PROCESSING_AGE`. -/
def maxProcessingAge : ℕ := 150

structure BlockMeta where
  slot : Slot
  blockhash : String
  blockHeight : ℕ
  bankId : Option BankId
  /-- bank selected by confirmed / finalized status -/
  selectedBankId : Option BankId
  /-- flag, means that we received block meta message -/
  processed : Bool
  confirmed : Bool
  finalized : Bool
  deriving DecidableEq

namespace BlockMeta

def default : BlockMeta := ⟨0, "", 0, none, none, false, false, false⟩

def setCandidate (entry candidate : BlockMeta) : BlockMeta :=
  { entry with
    slot := candidate.slot
    blockhash := candidate.blockhash
    blockHeight := candidate.blockHeight
    bankId := candidate.bankId }

/-- Replace with the candidate selected by confirmed / finalized status. -/
def selectCandidate (entry : BlockMeta) (candidates : Option (List BlockMeta)) (bankId : Option BankId) :
    BlockMeta :=
  let entry := { entry with selectedBankId := entry.selectedBankId.or bankId }
  match bankId with
  | none => entry
  | some bankId =>
    if entry.bankId = some bankId then entry
    else
      match candidates.bind (·.find? (·.bankId = some bankId)) with
      | some candidate => entry.setCandidate candidate
      | none => entry

/-- Without selected bank the latest candidate is used. -/
def accepts (entry candidate : BlockMeta) : Bool :=
  match entry.selectedBankId, candidate.bankId with
  | some selected, some bankId => selected = bankId
  | _, _ => true

end BlockMeta

structure BlockStatus where
  lastValidBlockHeight : ℕ
  processed : Bool
  confirmed : Bool
  finalized : Bool
  deriving DecidableEq

def BlockStatus.default : BlockStatus := ⟨0, false, false, false⟩

structure State where
  blocks : Slot → Option BlockMeta
  /-- candidate blocks of not finalized slots -/
  candidates : Slot → Option (List BlockMeta)
  blockhashes : String → Option BlockStatus
  processed : Slot
  confirmed : Slot
  finalized : Slot

namespace State

def default : State := ⟨fun _ => none, fun _ => none, fun _ => none, 0, 0, 0⟩

/-- The entry of a slot, a new one if there is none. -/
def entry (st : State) (slot : Slot) : BlockMeta := (st.blocks slot).getD .default

/-- The status of a blockhash changes if it is known: only block meta adds blockhashes, statuses can not
bring back removed ones. -/
def setBlockhash (st : State) (blockhash : String) (f : BlockStatus → BlockStatus) :
    String → Option BlockStatus :=
  Function.update st.blockhashes blockhash ((st.blockhashes blockhash).map f)

/-- `SlotConfirmed`. -/
def confirm (st : State) (slot : Slot) (bankId : Option BankId) : State :=
  let entry := { (st.entry slot).selectCandidate (st.candidates slot) bankId with confirmed := true }
  { st with
    blocks := Function.update st.blocks slot (some entry)
    blockhashes := st.setBlockhash entry.blockhash ({ · with confirmed := true })
    confirmed := slot }

/-- `SlotFinalized`: lower slots are removed, and the blockhashes that are not valid anymore at the
finalized block height. -/
def finalize (st : State) (slot : Slot) (bankId : Option BankId) : State :=
  let entry := st.entry slot
  let entry := if entry.confirmed then entry else entry.selectCandidate (st.candidates slot) bankId
  let entry := { entry with finalized := true }
  let blockhashes := st.setBlockhash entry.blockhash ({ · with finalized := true })
  { st with
    blocks := fun bslot => if slot ≤ bslot then Function.update st.blocks slot (some entry) bslot else none
    candidates := fun bslot => if slot < bslot then st.candidates bslot else none
    blockhashes := fun blockhash =>
      (blockhashes blockhash).filter (entry.blockHeight ≤ ·.lastValidBlockHeight)
    finalized := slot }

/-- A block meta as a candidate of its slot. -/
def candidateOf (fields : BlockMetaFields) (msg : MessageBlockMeta) : BlockMeta where
  slot := msg.slot
  blockhash := fields.blockhash msg
  blockHeight := fields.blockHeight msg
  bankId := nonzeroBankId msg.bankId
  selectedBankId := none
  processed := true
  confirmed := false
  finalized := false

/-- A block meta. The last valid block height wraps around, as the release build does. -/
def receiveMeta (fields : BlockMetaFields) (st : State) (msg : MessageBlockMeta) : State :=
  let candidate := candidateOf fields msg
  let bentry := { (st.blockhashes candidate.blockhash).getD .default with
    lastValidBlockHeight := (candidate.blockHeight + maxProcessingAge) % 2 ^ 64
    processed := true }
  let entry := st.entry msg.slot
  let entry := if entry.accepts candidate then entry.setCandidate candidate else entry
  { st with
    blocks := Function.update st.blocks msg.slot (some { entry with processed := true })
    candidates := if candidate.bankId.isSome then
        Function.update st.candidates msg.slot (some ((st.candidates msg.slot).getD [] ++ [candidate]))
      else st.candidates
    blockhashes := Function.update st.blockhashes candidate.blockhash (some bentry)
    processed := max st.processed msg.slot }

/-- The bank was cleared, its block meta is invalid. -/
def clearBank (st : State) (slot : Slot) (clearedBankId : BankId) : State :=
  let cleared := some clearedBankId
  let list := st.candidates slot
  let removed := (list.getD []).filter (·.bankId = cleared)
  let blockhashes := removed.foldl (fun blockhashes candidate =>
    if (blockhashes candidate.blockhash).any fun b => !b.confirmed && !b.finalized then
      Function.update blockhashes candidate.blockhash none
    else blockhashes) st.blockhashes
  let list := list.map (·.filter (·.bankId ≠ cleared))
  let blocks :=
    match st.blocks slot with
    | none => st.blocks
    | some entry =>
      if entry.bankId = cleared ∧ ¬ entry.confirmed ∧ ¬ entry.finalized then
        Function.update st.blocks slot ((list.bind (·.getLast?)).map entry.setCandidate)
      else st.blocks
  { st with
    blocks
    candidates := Function.update st.candidates slot list
    blockhashes }

def handleMessage (fields : BlockMetaFields) (st : State) : Message → State
  | .slot msg =>
    match msg.status with
    | .slotConfirmed => st.confirm msg.slot msg.bankId
    | .slotFinalized => st.finalize msg.slot msg.bankId
    | _ => st
  | .blockMeta msg => st.receiveMeta fields msg
  | .entryUpdateParent msg => st.clearBank msg.slot msg.clearedBankId
  | _ => st

def commitmentSlot (st : State) : CommitmentLevel → Slot
  | .processed => st.processed
  | .confirmed => st.confirmed
  | .finalized => st.finalized

def getBlock (st : State) (commitment : CommitmentLevel) : Option BlockMeta :=
  st.blocks (st.commitmentSlot commitment)

def isBlockhashValid (st : State) (blockhash : String) (commitment : CommitmentLevel) :
    Option (Bool × Slot) :=
  match st.getBlock commitment, st.blockhashes blockhash with
  | some block, some entry => some (block.blockHeight < entry.lastValidBlockHeight, block.slot)
  | _, _ => none

/-- The state after the messages. -/
def handled (fields : BlockMetaFields) (log : List Message) : State :=
  log.foldl (handleMessage fields) default

@[simp] theorem handled_nil (fields : BlockMetaFields) : handled fields [] = default := rfl

@[simp] theorem handled_snoc (fields : BlockMetaFields) (log : List Message) (m : Message) :
    handled fields (log ++ [m]) = (handled fields log).handleMessage fields m := by
  rw [handled, List.foldl_append]
  rfl

end State

end BlockMetaStorage

end Richat
