import Richat.Filter.Encode

/-!
# Filters of a request

What a client asks for (`SubscribeRequest`), what the conversion makes of it (`ConfigFilter`) and what the
limits of the server accept. A hash map is the list of its entries in the order in which it is iterated; of the
filters that are not supported only the presence is looked at.

The overlap of two data slices is checked with an addition of 64 bits, so that the check of a filter can itself
overflow (`FilterPanic.overflow`).
-/

namespace Richat.Filter

/-! ### Requests -/

structure SubscribeRequestFilterSlots where
  filterByCommitment : Option Bool
  interslotUpdates : Option Bool

inductive AccountsFilterMemcmpOneof where
  | bytes (data : Bytes)
  | base58 (data : String)
  | base64 (data : String)

structure SubscribeRequestFilterAccountsFilterMemcmp where
  offset : UInt64
  data : Option AccountsFilterMemcmpOneof

inductive AccountsFilterLamports where
  | eq (value : UInt64)
  | ne (value : UInt64)
  | lt (value : UInt64)
  | gt (value : UInt64)

structure SubscribeRequestFilterAccountsFilterLamports where
  cmp : Option AccountsFilterLamports

inductive AccountsFilterDataOneof where
  | memcmp (memcmp : SubscribeRequestFilterAccountsFilterMemcmp)
  | datasize (size : UInt64)
  | tokenAccountState (value : Bool)
  | lamports (lamports : SubscribeRequestFilterAccountsFilterLamports)

structure SubscribeRequestFilterAccountsFilter where
  filter : Option AccountsFilterDataOneof

structure SubscribeRequestFilterAccounts where
  account : List String
  owner : List String
  filters : List SubscribeRequestFilterAccountsFilter
  nonemptyTxnSignature : Option Bool
  cuckooAccountsFilter : Option Bytes

structure SubscribeRequestAccountsDataSlice where
  offset : UInt64
  length : UInt64

structure SubscribeRequestFilterTransactions where
  vote : Option Bool
  failed : Option Bool
  signature : Option String
  accountInclude : List String
  accountExclude : List String
  accountRequired : List String
  cuckooAccountInclude : Option Bytes
  tokenAccounts : Option Bytes

structure SubscribeRequestFilterEntry where
  includeUpdateParent : Option Bool

structure SubscribeRequestFilterBlocks where
  accountInclude : List String
  includeTransactions : Option Bool
  includeAccounts : Option Bool
  includeEntries : Option Bool
  cuckooAccountInclude : Option Bytes

structure SubscribeRequestFilterBlockFooter where
  includeCertificates : Option Bool

structure SubscribeRequest where
  slots : List (String × SubscribeRequestFilterSlots)
  accounts : List (String × SubscribeRequestFilterAccounts)
  accountsDataSlice : List SubscribeRequestAccountsDataSlice
  transactions : List (String × SubscribeRequestFilterTransactions)
  transactionsStatus : List (String × SubscribeRequestFilterTransactions)
  entry : List (String × SubscribeRequestFilterEntry)
  /-- the filters of the block meta have no fields -/
  blocksMeta : List String
  blocks : List (String × SubscribeRequestFilterBlocks)
  blockFooter : List (String × SubscribeRequestFilterBlockFooter)
  commitment : Option Int32

/-! ### Filters of a configuration -/

def maxFilters : ℕ := 4
def maxDataSize : ℕ := 128
def maxDataBase58Size : ℕ := 175
def maxDataBase64Size : ℕ := 172

inductive ConfigLimitsError where
  | filterNameOverflow (max : ℕ)
  | filtersOverflow (max : ℕ)
  | emptyNotAllowed
  | pubkeysOverflow (max : ℕ)
  | pubkeyNotAllowed (pubkey : Pubkey)
  | tooMuchFilters (max : ℕ)
  | filterDataOverflow
  | datasizeDuplicated
  | dataSliceOutOfOrder
  | dataSliceOverlap
  | blocksNotAllowed (kind : String)

inductive Five8Error where
  | invalidChar | tooLong | tooShort | largestTermTooHigh | outputTooLong

/-- `ParsePubkeyError` and `ParseSignatureError`, as far as they are made here. -/
inductive ParseKeyError where
  | invalid | wrongSize

inductive ConfigFilterError where
  | limits (error : ConfigLimitsError)
  | fieldNotDefined (field : String)
  | fieldNotSupported (field : String)
  | tokenAccountStateInvalid
  | invalidBase58
  | invalidBase64
  | pubkey (encoded : String) (error : ParseKeyError)
  | signature (encoded : String) (error : ParseKeyError)
  | unknownCommitment (value : Int32)

/-- The decoders of texts that are not in the repository. -/
structure TextDecoders where
  decode32 : String → Except Five8Error Pubkey
  decode64 : String → Except Five8Error Signature
  bs58 : String → Option Bytes
  base64 : String → Option Bytes

def Five8Error.toParseKeyError : Five8Error → ParseKeyError
  | invalidChar => .invalid
  | _ => .wrongSize

namespace TextDecoders

variable (lib : TextDecoders)

def pubkeyDecode (encoded : String) : Except ParseKeyError Pubkey :=
  (lib.decode32 encoded).mapError Five8Error.toParseKeyError

def signatureDecode (encoded : String) : Except ParseKeyError Signature :=
  (lib.decode64 encoded).mapError Five8Error.toParseKeyError

end TextDecoders

structure ConfigFilterSlots where
  filterByCommitment : Option Bool
  interslotUpdates : Option Bool

inductive ConfigFilterAccountsFilterLamports where
  | eq (value : UInt64)
  | ne (value : UInt64)
  | lt (value : UInt64)
  | gt (value : UInt64)

inductive ConfigFilterAccountsFilter where
  | memcmp (offset : UInt64) (data : Bytes)
  | dataSize (size : UInt64)
  | tokenAccountState
  | lamports (cmp : ConfigFilterAccountsFilterLamports)

structure ConfigFilterAccounts where
  account : List Pubkey
  owner : List Pubkey
  filters : List ConfigFilterAccountsFilter
  nonemptyTxnSignature : Option Bool

structure ConfigFilterAccountsDataSlice where
  offset : UInt64
  length : UInt64

structure ConfigFilterTransactions where
  vote : Option Bool
  failed : Option Bool
  signature : Option Signature
  accountInclude : List Pubkey
  accountExclude : List Pubkey
  accountRequired : List Pubkey

structure ConfigFilterBlocks where
  accountInclude : List Pubkey
  includeTransactions : Option Bool
  includeAccounts : Option Bool
  includeEntries : Option Bool

structure ConfigFilterBlockFooter where
  includeCertificates : Option Bool

structure ConfigFilter where
  slots : List (String × ConfigFilterSlots)
  accounts : List (String × ConfigFilterAccounts)
  accountsDataSlice : List ConfigFilterAccountsDataSlice
  transactions : List (String × ConfigFilterTransactions)
  transactionsStatus : List (String × ConfigFilterTransactions)
  entries : List String
  /-- entry filters that also receive cleared banks -/
  entriesUpdateParent : List String
  blocksMeta : List String
  blocks : List (String × ConfigFilterBlocks)
  blockFooter : List (String × ConfigFilterBlockFooter)
  commitment : Option CommitmentLevel

/-! ### The conversion -/

def tryConvMap {T C : Type} (tryFrom : T → Except ConfigFilterError C) (map : List (String × T)) :
    Except ConfigFilterError (List (String × C)) :=
  map.mapM fun (key, value) => return (key, ← tryFrom value)

def parseVecPubkeys (lib : TextDecoders) (pubkeys : List String) : Except ConfigFilterError (List Pubkey) :=
  pubkeys.mapM fun pubkey => (lib.pubkeyDecode pubkey).mapError (.pubkey pubkey)

def ConfigFilterSlots.tryFrom (value : SubscribeRequestFilterSlots) : Except ConfigFilterError ConfigFilterSlots :=
  .ok ⟨value.filterByCommitment, value.interslotUpdates⟩

def ConfigFilterAccountsFilterLamports.tryFrom (value : SubscribeRequestFilterAccountsFilterLamports) :
    Except ConfigFilterError ConfigFilterAccountsFilterLamports :=
  match value.cmp with
  | none => .error (.fieldNotDefined "cmp")
  | some (.eq value) => .ok (.eq value)
  | some (.ne value) => .ok (.ne value)
  | some (.lt value) => .ok (.lt value)
  | some (.gt value) => .ok (.gt value)

/-- The bytes that are compared. -/
def decodeMemcmp (lib : TextDecoders) : AccountsFilterMemcmpOneof → Except ConfigFilterError Bytes
  | .bytes data => .ok data
  | .base58 data => do
    if maxDataBase58Size < data.utf8ByteSize then throw (.limits .filterDataOverflow)
    let some data := lib.bs58 data | throw .invalidBase58
    return data
  | .base64 data => do
    if maxDataBase64Size < data.utf8ByteSize then throw (.limits .filterDataOverflow)
    let some data := lib.base64 data | throw .invalidBase64
    return data

def ConfigFilterAccountsFilter.tryFrom (lib : TextDecoders) (value : SubscribeRequestFilterAccountsFilter) :
    Except ConfigFilterError ConfigFilterAccountsFilter :=
  match value.filter with
  | none => .error (.fieldNotDefined "filter")
  | some (.memcmp filter) => do
    let some value := filter.data | throw (.fieldNotDefined "data")
    let data ← decodeMemcmp lib value
    if maxDataSize < data.length then throw (.limits .filterDataOverflow)
    return .memcmp filter.offset data
  | some (.datasize size) => .ok (.dataSize size)
  | some (.tokenAccountState value) =>
    if value then .ok .tokenAccountState else .error .tokenAccountStateInvalid
  | some (.lamports value) => do return .lamports (← ConfigFilterAccountsFilterLamports.tryFrom value)

def ConfigFilterAccounts.tryFrom (lib : TextDecoders) (value : SubscribeRequestFilterAccounts) :
    Except ConfigFilterError ConfigFilterAccounts := do
  if value.cuckooAccountsFilter.isSome then throw (.fieldNotSupported "cuckoo_accounts_filter")
  let account ← parseVecPubkeys lib value.account
  let owner ← parseVecPubkeys lib value.owner
  if maxFilters < value.filters.length then throw (.limits (.tooMuchFilters maxFilters))
  let filters ← value.filters.mapM (ConfigFilterAccountsFilter.tryFrom lib)
  return { account, owner, filters, nonemptyTxnSignature := value.nonemptyTxnSignature }

def ConfigFilterAccountsDataSlice.tryFrom (value : SubscribeRequestAccountsDataSlice) :
    Except ConfigFilterError ConfigFilterAccountsDataSlice :=
  .ok ⟨value.offset, value.length⟩

def ConfigFilterTransactions.tryFrom (lib : TextDecoders) (value : SubscribeRequestFilterTransactions) :
    Except ConfigFilterError ConfigFilterTransactions := do
  if value.cuckooAccountInclude.isSome then throw (.fieldNotSupported "cuckoo_account_include")
  if value.tokenAccounts.isSome then throw (.fieldNotSupported "token_accounts")
  let signature ← value.signature.mapM fun sig => (lib.signatureDecode sig).mapError (.signature sig)
  return {
    vote := value.vote
    failed := value.failed
    signature
    accountInclude := ← parseVecPubkeys lib value.accountInclude
    accountExclude := ← parseVecPubkeys lib value.accountExclude
    accountRequired := ← parseVecPubkeys lib value.accountRequired }

def ConfigFilterBlocks.tryFrom (lib : TextDecoders) (value : SubscribeRequestFilterBlocks) :
    Except ConfigFilterError ConfigFilterBlocks := do
  if value.cuckooAccountInclude.isSome then throw (.fieldNotSupported "cuckoo_account_include")
  return {
    accountInclude := ← parseVecPubkeys lib value.accountInclude
    includeTransactions := value.includeTransactions
    includeAccounts := value.includeAccounts
    includeEntries := value.includeEntries }

def ConfigFilterBlockFooter.tryFrom (value : SubscribeRequestFilterBlockFooter) :
    Except ConfigFilterError ConfigFilterBlockFooter :=
  .ok ⟨value.includeCertificates⟩

/-- `ConfigFilterCommitment::try_from`. -/
def configFilterCommitment (value : Int32) : Except ConfigFilterError CommitmentLevel :=
  if value = 0 then .ok .processed
  else if value = 1 then .ok .confirmed
  else if value = 2 then .ok .finalized
  else .error (.unknownCommitment value)

def ConfigFilter.tryFrom (lib : TextDecoders) (value : SubscribeRequest) : Except ConfigFilterError ConfigFilter := do
  return {
    slots := ← tryConvMap ConfigFilterSlots.tryFrom value.slots
    accounts := ← tryConvMap (ConfigFilterAccounts.tryFrom lib) value.accounts
    accountsDataSlice := ← value.accountsDataSlice.mapM ConfigFilterAccountsDataSlice.tryFrom
    transactions := ← tryConvMap (ConfigFilterTransactions.tryFrom lib) value.transactions
    transactionsStatus := ← tryConvMap (ConfigFilterTransactions.tryFrom lib) value.transactionsStatus
    entriesUpdateParent :=
      (value.entry.filter fun (_, filter) => filter.includeUpdateParent = some true).map Prod.fst
    entries := value.entry.map Prod.fst
    blocksMeta := value.blocksMeta
    blocks := ← tryConvMap (ConfigFilterBlocks.tryFrom lib) value.blocks
    blockFooter := ← tryConvMap ConfigFilterBlockFooter.tryFrom value.blockFooter
    commitment := ← value.commitment.mapM configFilterCommitment }

/-! ### Limits -/

/-- `usize::MAX`. -/
def usizeMax : ℕ := 2 ^ 64 - 1

structure ConfigLimitsSlots where
  max : ℕ := usizeMax

structure ConfigLimitsAccounts where
  max : ℕ := usizeMax
  any : Bool := true
  accountMax : ℕ := usizeMax
  accountReject : Finset Pubkey := ∅
  ownerMax : ℕ := usizeMax
  ownerReject : Finset Pubkey := ∅
  dataSliceMax : ℕ := usizeMax

structure ConfigLimitsTransactions where
  max : ℕ := usizeMax
  any : Bool := true
  accountIncludeMax : ℕ := usizeMax
  accountIncludeReject : Finset Pubkey := ∅
  accountExcludeMax : ℕ := usizeMax
  accountRequiredMax : ℕ := usizeMax

structure ConfigLimitsEntries where
  max : ℕ := usizeMax

structure ConfigLimitsBlocksMeta where
  max : ℕ := usizeMax

structure ConfigLimitsBlocks where
  max : ℕ := usizeMax
  accountIncludeMax : ℕ := usizeMax
  accountIncludeAny : Bool := true
  accountIncludeReject : Finset Pubkey := ∅
  includeTransactions : Bool := true
  includeAccounts : Bool := true
  includeEntries : Bool := true

structure ConfigLimitsBlockFooter where
  max : ℕ := usizeMax

structure ConfigLimits where
  nameMax : ℕ := 128
  slots : ConfigLimitsSlots := {}
  accounts : ConfigLimitsAccounts := {}
  transactions : ConfigLimitsTransactions := {}
  transactionsStatus : ConfigLimitsTransactions := {}
  entries : ConfigLimitsEntries := {}
  blocksMeta : ConfigLimitsBlocksMeta := {}
  blocks : ConfigLimitsBlocks := {}
  blockFooter : ConfigLimitsBlockFooter := {}

namespace ConfigLimits

def checkNameMax (len max : ℕ) : Except ConfigLimitsError Unit :=
  if len ≤ max then .ok () else .error (.filterNameOverflow max)

def checkNamesMax (names : List String) (max : ℕ) : Except ConfigLimitsError Unit :=
  names.forM fun key => checkNameMax key.utf8ByteSize max

def checkMax (len max : ℕ) : Except ConfigLimitsError Unit :=
  if len ≤ max then .ok () else .error (.filtersOverflow max)

def checkAny (isEmpty any : Bool) : Except ConfigLimitsError Unit :=
  if !isEmpty || any then .ok () else .error .emptyNotAllowed

def checkPubkeyMax (len max : ℕ) : Except ConfigLimitsError Unit :=
  if len ≤ max then .ok () else .error (.pubkeysOverflow max)

def checkPubkeyReject (pubkey : Pubkey) (set : Finset Pubkey) : Except ConfigLimitsError Unit :=
  if pubkey ∉ set then .ok () else .error (.pubkeyNotAllowed pubkey)

end ConfigLimits

open ConfigLimits

/-- The filters that only have a name and a number of them to check. -/
def checkNamed (max nameMax : ℕ) (names : List String) : Except ConfigLimitsError Unit := do
  checkNamesMax names nameMax
  checkMax names.length max

def ConfigLimitsSlots.checkFilter (limits : ConfigLimitsSlots) (nameMax : ℕ)
    (filters : List (String × ConfigFilterSlots)) : Except ConfigLimitsError Unit :=
  checkNamed limits.max nameMax (filters.map Prod.fst)

def ConfigLimitsEntries.checkFilter (limits : ConfigLimitsEntries) (nameMax : ℕ) (filters : List String) :
    Except ConfigLimitsError Unit :=
  checkNamed limits.max nameMax filters

def ConfigLimitsBlocksMeta.checkFilter (limits : ConfigLimitsBlocksMeta) (nameMax : ℕ) (filters : List String) :
    Except ConfigLimitsError Unit :=
  checkNamed limits.max nameMax filters

def ConfigLimitsBlockFooter.checkFilter (limits : ConfigLimitsBlockFooter) (nameMax : ℕ)
    (filters : List (String × ConfigFilterBlockFooter)) : Except ConfigLimitsError Unit :=
  checkNamed limits.max nameMax (filters.map Prod.fst)

def ConfigLimitsTransactions.checkFilter (limits : ConfigLimitsTransactions) (nameMax : ℕ)
    (filters : List (String × ConfigFilterTransactions)) : Except ConfigLimitsError Unit := do
  checkNamed limits.max nameMax (filters.map Prod.fst)
  filters.forM fun (_, filter) => do
    checkAny (filter.vote.isNone && filter.failed.isNone && filter.accountInclude.isEmpty &&
      filter.accountExclude.isEmpty && filter.accountRequired.isEmpty) limits.any
    checkPubkeyMax filter.accountInclude.length limits.accountIncludeMax
    checkPubkeyMax filter.accountExclude.length limits.accountExcludeMax
    checkPubkeyMax filter.accountRequired.length limits.accountRequiredMax
    filter.accountInclude.forM fun pubkey => checkPubkeyReject pubkey limits.accountIncludeReject

def ConfigLimitsBlocks.checkFilter (limits : ConfigLimitsBlocks) (nameMax : ℕ)
    (filters : List (String × ConfigFilterBlocks)) : Except ConfigLimitsError Unit := do
  checkNamed limits.max nameMax (filters.map Prod.fst)
  filters.forM fun (_, filter) => do
    checkAny filter.accountInclude.isEmpty limits.accountIncludeAny
    checkPubkeyMax filter.accountInclude.length limits.accountIncludeMax
    if !(filter.includeTransactions = some false || limits.includeTransactions) then
      throw (.blocksNotAllowed "transactions")
    if !(filter.includeAccounts ≠ some true || limits.includeAccounts) then
      throw (.blocksNotAllowed "accounts")
    -- the limit of the accounts once more
    if !(filter.includeEntries ≠ some true || limits.includeAccounts) then
      throw (.blocksNotAllowed "entries")
    filter.accountInclude.forM fun pubkey => checkPubkeyReject pubkey limits.accountIncludeReject

/-- The filters of one accounts filter, `datasizeDefined` if one was a size. -/
def checkAccountsFilters (datasizeDefined : Bool) : List ConfigFilterAccountsFilter → Except ConfigLimitsError Unit
  | [] => .ok ()
  | .memcmp _ data :: filters =>
    if maxDataSize < data.length then .error .filterDataOverflow else checkAccountsFilters datasizeDefined filters
  | .dataSize _ :: filters =>
    if datasizeDefined then .error .datasizeDuplicated else checkAccountsFilters true filters
  | .tokenAccountState :: filters => checkAccountsFilters datasizeDefined filters
  | .lamports _ :: filters => checkAccountsFilters datasizeDefined filters

/-- A check that can overflow. -/
abbrev Checked := ExceptT ConfigLimitsError (Except FilterPanic)

/-- A slice against those before it. -/
def checkOverlap (slice : ConfigFilterAccountsDataSlice) :
    List ConfigFilterAccountsDataSlice → Checked Unit
  | [] => pure ()
  | before :: slices => do
    let stop ← (checkedAdd before.offset.toNat before.length.toNat : Except FilterPanic ℕ)
    if slice.offset.toNat < stop then throw .dataSliceOverlap
    checkOverlap slice slices

/-- The slices that come after `before`. -/
def checkDataSlices (before : List ConfigFilterAccountsDataSlice) :
    List ConfigFilterAccountsDataSlice → Checked Unit
  | [] => pure ()
  | slice :: after => do
    -- check order
    if after.any fun ds => ds.offset < slice.offset then throw .dataSliceOutOfOrder
    -- check overlap
    checkOverlap slice before
    checkDataSlices (before ++ [slice]) after

def ConfigLimitsAccounts.checkFilter (limits : ConfigLimitsAccounts) (nameMax : ℕ)
    (filters : List (String × ConfigFilterAccounts)) (dataSlices : List ConfigFilterAccountsDataSlice) :
    Checked Unit := do
  liftExcept (checkNamed limits.max nameMax (filters.map Prod.fst))
  liftExcept (filters.forM fun (_, filter) => do
    checkAny (filter.account.isEmpty && filter.owner.isEmpty) limits.any
    checkPubkeyMax filter.account.length limits.accountMax
    checkPubkeyMax filter.owner.length limits.ownerMax
    filter.account.forM fun pubkey => checkPubkeyReject pubkey limits.accountReject
    filter.owner.forM fun pubkey => checkPubkeyReject pubkey limits.ownerReject
    if maxFilters < filter.filters.length then throw (.tooMuchFilters maxFilters)
    checkAccountsFilters false filter.filters)
  liftExcept (checkMax dataSlices.length limits.dataSliceMax)
  checkDataSlices [] dataSlices

def ConfigLimits.checkFilter (limits : ConfigLimits) (filter : ConfigFilter) : Checked Unit := do
  liftExcept (limits.slots.checkFilter limits.nameMax filter.slots)
  limits.accounts.checkFilter limits.nameMax filter.accounts filter.accountsDataSlice
  liftExcept (limits.transactions.checkFilter limits.nameMax filter.transactions)
  liftExcept (limits.transactionsStatus.checkFilter limits.nameMax filter.transactionsStatus)
  liftExcept (limits.entries.checkFilter limits.nameMax filter.entries)
  liftExcept (limits.blocksMeta.checkFilter limits.nameMax filter.blocksMeta)
  liftExcept (limits.blocks.checkFilter limits.nameMax filter.blocks)
  liftExcept (limits.blockFooter.checkFilter limits.nameMax filter.blockFooter)

end Richat.Filter
