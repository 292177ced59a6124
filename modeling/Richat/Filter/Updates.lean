import Richat.Filter.Config

/-!
# The filter of a client

`ClientFilter.new` makes the filter of an accepted configuration, `getUpdatesRef` the updates that a message has for
it. The threads of the server run it for every message and every client, so each addition of 64 bits, each index
and each array of a fixed size is a possible panic (`FilterPanic`).

Whether the data of an account is a token account is told by another program (`validAccountData`).
-/

namespace Richat.Filter

/-! ### Arrays of a fixed size -/

/-- A list that fits into an array. -/
def ArrayVec (α : Type) (cap : ℕ) := { items : List α // items.length ≤ cap }

namespace ArrayVec

variable {α : Type} {cap : ℕ}

def empty : ArrayVec α cap := ⟨[], Nat.zero_le cap⟩

def push (vec : ArrayVec α cap) (item : α) : Except FilterPanic (ArrayVec α cap) :=
  if h : vec.val.length < cap then .ok ⟨vec.val ++ [item], by simpa using h⟩ else .error .capacityOverflow

/-- `items.collect()` -/
def collect (items : List α) : Except FilterPanic (ArrayVec α cap) :=
  if h : items.length ≤ cap then .ok ⟨items, h⟩ else .error .capacityOverflow

end ArrayVec

/-! ### Slots -/

structure FilterSlotsInner where
  filterByCommitment : Bool
  interslotUpdates : Bool

def FilterSlotsInner.new (filter : ConfigFilterSlots) : FilterSlotsInner :=
  ⟨filter.filterByCommitment.getD false, filter.interslotUpdates.getD false⟩

/-- The names of the filters that take the message. -/
def namesOf {α : Type} (takes : α → Bool) (filters : List (String × α)) : List String :=
  (filters.filter (takes ·.2)).map Prod.fst

/-- An update for the filters, none if there are none. -/
def updateOf (filters : List String) (filteredUpdate : FilteredUpdateType) : Option FilteredUpdate :=
  if filters.isEmpty then none else some ⟨filters, filteredUpdate⟩

/-- The status that a commitment waits for. -/
def statusOfCommitment : CommitmentLevel → SlotStatus
  | .processed => .slotProcessed
  | .confirmed => .slotConfirmed
  | .finalized => .slotFinalized

def FilterSlotsInner.takes (status : SlotStatus) (commitment : CommitmentLevel) (inner : FilterSlotsInner) : Bool :=
  (!inner.filterByCommitment || status = statusOfCommitment commitment) &&
    (inner.interslotUpdates || status ∈ [.slotProcessed, .slotConfirmed, .slotFinalized])

abbrev FilterSlots := List (String × FilterSlotsInner)

def FilterSlots.new (configs : List (String × ConfigFilterSlots)) : FilterSlots :=
  configs.map fun (name, filter) => (name, .new filter)

def FilterSlots.getUpdate (filters : FilterSlots) (message : MessageSlot) (commitment : CommitmentLevel) :
    Option FilteredUpdate :=
  updateOf (namesOf (·.takes message.status commitment) filters) (.slot message)

/-! ### Accounts -/

inductive FilterAccountsLamports where
  | eq (value : UInt64)
  | ne (value : UInt64)
  | lt (value : UInt64)
  | gt (value : UInt64)

namespace FilterAccountsLamports

def ofConfig : ConfigFilterAccountsFilterLamports → FilterAccountsLamports
  | .eq value => eq value
  | .ne value => ne value
  | .lt value => lt value
  | .gt value => gt value

def isMatch (lamports : UInt64) : FilterAccountsLamports → Bool
  | eq value => value = lamports
  | ne value => value ≠ lamports
  | lt value => lamports < value
  | gt value => value < lamports

end FilterAccountsLamports

structure FilterAccountsState where
  memcmp : ArrayVec (UInt64 × ArrayVec UInt8 maxDataSize) maxFilters
  datasize : Option UInt64
  tokenAccountState : Bool
  lamports : ArrayVec FilterAccountsLamports maxFilters

namespace FilterAccountsState

def default : FilterAccountsState := ⟨.empty, none, false, .empty⟩

def add (me : FilterAccountsState) : ConfigFilterAccountsFilter → Except FilterPanic FilterAccountsState
  | .memcmp offset data => do
    let data ← ArrayVec.collect data
    return { me with memcmp := ← me.memcmp.push (offset, data) }
  | .dataSize size => .ok { me with datasize := some size }
  | .tokenAccountState => .ok { me with tokenAccountState := true }
  | .lamports value => do return { me with lamports := ← me.lamports.push (.ofConfig value) }

def new (filters : List ConfigFilterAccountsFilter) : Except FilterPanic FilterAccountsState :=
  filters.foldlM add default

/-- The parts of the data that are compared. -/
def memcmpMatch (data : Bytes) : List (UInt64 × ArrayVec UInt8 maxDataSize) → Except FilterPanic Bool
  | [] => .ok true
  | (offset, bytes) :: memcmp => do
    let stop ← checkedAdd offset.toNat bytes.val.length
    if data.length < stop then return false
    let part ← indexRange data ⟨offset.toNat, stop⟩
    if part ≠ bytes.val then return false
    memcmpMatch data memcmp

def isMatch (validAccountData : Bytes → Bool) (me : FilterAccountsState) (lamports : UInt64) (data : Bytes) :
    Except FilterPanic Bool :=
  if me.datasize.any fun datasize => data.length ≠ datasize.toNat then .ok false
  else if me.tokenAccountState && !validAccountData data then .ok false
  else if me.lamports.val.any (!·.isMatch lamports) then .ok false
  else memcmpMatch data me.memcmp.val

end FilterAccountsState

structure FilterAccountsInner where
  account : Finset Pubkey
  owner : Finset Pubkey
  filters : Option FilterAccountsState
  nonemptyTxnSignature : Option Bool

/-- `message.data()` -/
def indexData : MessageAccount → Except FilterPanic Bytes
  | .limited msg => indexRange msg.buffer msg.data
  | .prost msg => .ok msg.account.data

namespace FilterAccountsInner

def new (filter : ConfigFilterAccounts) : Except FilterPanic FilterAccountsInner := do
  let filters ← if filter.filters.isEmpty then pure none else some <$> FilterAccountsState.new filter.filters
  return {
    account := filter.account.toFinset
    owner := filter.owner.toFinset
    filters
    nonemptyTxnSignature := filter.nonemptyTxnSignature }

def takes (validAccountData : Bytes → Bool) (message : MessageAccount) (data : Bytes)
    (inner : FilterAccountsInner) : Except FilterPanic Bool :=
  if inner.account ≠ ∅ ∧ message.pubkey ∉ inner.account then .ok false
  else if inner.owner ≠ ∅ ∧ message.owner ∉ inner.owner then .ok false
  else do
    if let some filters := inner.filters then
      if !(← filters.isMatch validAccountData message.lamports data) then return false
    return inner.nonemptyTxnSignature.all (· = message.nonemptyTxnSignature)

end FilterAccountsInner

abbrev FilterAccounts := List (String × FilterAccountsInner)

namespace FilterAccounts

def new (configs : List (String × ConfigFilterAccounts)) : Except FilterPanic FilterAccounts :=
  configs.mapM fun (name, filter) => return (name, ← FilterAccountsInner.new filter)

/-- The names of the filters that take the account. -/
def names (validAccountData : Bytes → Bool) (message : MessageAccount) (data : Bytes) :
    FilterAccounts → Except FilterPanic (List String)
  | [] => .ok []
  | (name, inner) :: filters => do
    let found ← inner.takes validAccountData message data
    let rest ← names validAccountData message data filters
    return if found then name :: rest else rest

def getUpdate (validAccountData : Bytes → Bool) (filters : FilterAccounts) (message : MessageAccount)
    (dataSlices : FilterAccountDataSlices) : Except FilterPanic (Option FilteredUpdate) := do
  let data ← indexData message
  return updateOf (← filters.names validAccountData message data) (.account message dataSlices)

end FilterAccounts

/-- `FilterAccountDataSlices::new`. -/
def newDataSlices (dataSlices : List ConfigFilterAccountsDataSlice) : Except FilterPanic FilterAccountDataSlices :=
  dataSlices.mapM fun ds => return ⟨ds.offset.toNat, ← checkedAdd ds.offset.toNat ds.length.toNat⟩

/-! ### Transactions -/

structure FilterTransactionsInner where
  vote : Option Bool
  failed : Option Bool
  signature : Option Signature
  accountInclude : Finset Pubkey
  accountExclude : Finset Pubkey
  accountRequired : Finset Pubkey

def FilterTransactionsInner.new (filter : ConfigFilterTransactions) : FilterTransactionsInner where
  vote := filter.vote
  failed := filter.failed
  signature := filter.signature
  accountInclude := filter.accountInclude.toFinset
  accountExclude := filter.accountExclude.toFinset
  accountRequired := filter.accountRequired.toFinset

def FilterTransactionsInner.takes (message : MessageTransaction) (signature : Bytes)
    (inner : FilterTransactionsInner) : Bool :=
  inner.vote.all (· = message.vote) && inner.failed.all (· = message.failed) &&
    inner.signature.all (·.val = signature) &&
    (inner.accountInclude = ∅ ∨ inner.accountInclude ∩ message.accountKeys ≠ ∅) &&
    (inner.accountExclude = ∅ ∨ inner.accountExclude ∩ message.accountKeys = ∅) &&
    (inner.accountRequired = ∅ ∨ inner.accountRequired ⊆ message.accountKeys)

abbrev FilterTransactions := List (String × FilterTransactionsInner)

def FilterTransactions.new (configs : List (String × ConfigFilterTransactions)) : FilterTransactions :=
  configs.map fun (name, filter) => (name, .new filter)

/-- The update of a kind: `transactions` or `transactions_status`. -/
def FilterTransactions.getUpdate (kind : MessageTransaction → FilteredUpdateType) (filters : FilterTransactions)
    (message : MessageTransaction) : Except FilterPanic (Option FilteredUpdate) := do
  let signature ← indexSignature message
  return updateOf (namesOf (·.takes message signature) filters) (kind message)

/-! ### Entries and block metas -/

structure FilterEntries where
  filters : List String
  filtersUpdateParent : List String

namespace FilterEntries

def new (configs configsUpdateParent : List String) : FilterEntries :=
  ⟨configs, configs.filter (· ∈ configsUpdateParent)⟩

def getUpdateParent (me : FilterEntries) (message : MessageEntryUpdateParent) : Option FilteredUpdate :=
  updateOf me.filtersUpdateParent (.entryUpdateParent message)

def getUpdate (me : FilterEntries) (message : MessageEntry) : Option FilteredUpdate :=
  updateOf me.filters (.entry message)

end FilterEntries

abbrev FilterBlocksMeta := List String

def FilterBlocksMeta.getUpdate (filters : FilterBlocksMeta) (message : MessageBlockMeta) :
    Option FilteredUpdate :=
  updateOf filters (.blockMeta message)

/-! ### Blocks and footers -/

structure FilterBlocksInner where
  accountInclude : Finset Pubkey
  includeTransactions : Option Bool
  includeAccounts : Option Bool
  includeEntries : Option Bool

def FilterBlocksInner.new (filter : ConfigFilterBlocks) : FilterBlocksInner where
  accountInclude := filter.accountInclude.toFinset
  includeTransactions := filter.includeTransactions
  includeAccounts := filter.includeAccounts
  includeEntries := filter.includeEntries

/-- Where the items are that are taken. -/
def indexesOf {α : Type} (takes : α → Bool) (items : List α) : List ℕ :=
  (items.zipIdx.filter (takes ·.1)).map Prod.snd

abbrev FilterBlocks := List (String × FilterBlocksInner)

def FilterBlocks.new (configs : List (String × ConfigFilterBlocks)) : FilterBlocks :=
  configs.map fun (name, filter) => (name, .new filter)

def FilterBlocks.getUpdates (filters : FilterBlocks) (message : MessageBlock)
    (dataSlices : FilterAccountDataSlices) : List FilteredUpdate :=
  filters.map fun (name, filter) =>
    let accounts :=
      if filter.includeAccounts = some true then
        indexesOf (fun account => filter.accountInclude = ∅ ∨ account.pubkey ∈ filter.accountInclude) message.accounts
      else []
    let transactions :=
      if filter.includeTransactions ≠ some false then
        indexesOf (fun tx => filter.accountInclude = ∅ ∨ filter.accountInclude ∩ tx.accountKeys ≠ ∅)
          message.transactions
      else []
    ⟨[name], .block message accounts transactions (filter.includeEntries = some true) dataSlices⟩

abbrev FilterBlockFooter := List (String × Bool)

def FilterBlockFooter.new (configs : List (String × ConfigFilterBlockFooter)) : FilterBlockFooter :=
  configs.map fun (name, filter) => (name, filter.includeCertificates = some true)

/-- The filters by whether they want the certificates, at most two updates. -/
def FilterBlockFooter.getUpdates (filters : FilterBlockFooter) (message : MessageBlockFooter) :
    List FilteredUpdate :=
  [false, true].filterMap fun includeCertificates =>
    updateOf (namesOf (· = includeCertificates) filters) (.blockFooter message includeCertificates)

/-! ### The filter -/

/-- `Filter`. -/
structure ClientFilter where
  slots : FilterSlots
  accounts : FilterAccounts
  accountsDataSlices : FilterAccountDataSlices
  transactions : FilterTransactions
  transactionsStatus : FilterTransactions
  entries : FilterEntries
  blocksMeta : FilterBlocksMeta
  blocks : FilterBlocks
  blockFooter : FilterBlockFooter
  commitment : CommitmentLevel

namespace ClientFilter

def new (config : ConfigFilter) : Except FilterPanic ClientFilter := do
  return {
    slots := .new config.slots
    accounts := ← FilterAccounts.new config.accounts
    accountsDataSlices := ← newDataSlices config.accountsDataSlice
    transactions := .new config.transactions
    transactionsStatus := .new config.transactionsStatus
    entries := .new config.entries config.entriesUpdateParent
    blocksMeta := config.blocksMeta
    blocks := .new config.blocks
    blockFooter := .new config.blockFooter
    commitment := config.commitment.getD .processed }

def getUpdatesRef (validAccountData : Bytes → Bool) (me : ClientFilter) (message : Message)
    (commitment : CommitmentLevel) : Except FilterPanic (List FilteredUpdate) :=
  match message with
  | .slot message => .ok (me.slots.getUpdate message commitment).toList
  | .account message => do
    return (← me.accounts.getUpdate validAccountData message me.accountsDataSlices).toList
  | .transaction message => do
    let update ← me.transactions.getUpdate .transaction message
    let updateStatus ← me.transactionsStatus.getUpdate .transactionStatus message
    return update.toList ++ updateStatus.toList
  | .entry message => .ok (me.entries.getUpdate message).toList
  | .blockMeta message => .ok (me.blocksMeta.getUpdate message).toList
  | .block message => .ok (me.blocks.getUpdates message me.accountsDataSlices)
  | .blockFooter message => .ok (me.blockFooter.getUpdates message)
  | .entryUpdateParent message => .ok (me.entries.getUpdateParent message).toList

end ClientFilter

end Richat.Filter
