import Richat.Pubsub.WorkerSignatures

/-!
# The filters of the subscriptions

`filterJob` matches one message against one subscription, with the filters of `SubscribeConfig` for each
method. `collectJobs` takes the subscriptions from the index, `scanJobs` is every subscription of the
commitment.

`FilterEnv` is what the filters read of the bodies of messages and configs, and the json of the
notifications. The account keys of a transaction are a set.
-/

namespace Richat

open Lib

inductive RpcFilterType where
  | dataSize (size : ℕ)
  | memcmp (memcmp : Bytes)
  | tokenAccountState

inductive BlockSubscriptionKind where
  | all
  | mentionsAccountOrProgram (pubkey : Pubkey)

structure TransactionFilter where
  vote : Option Bool
  failed : Option Bool
  signature : Option Signature
  accountInclude : List Pubkey
  accountExclude : List Pubkey
  accountRequired : List Pubkey

structure FilterEnv extends WorkerEnv where
  accountKeys_nodup : ∀ msg, (accountKeys msg).Nodup
  vote : MessageTransaction → Bool
  /-- the log messages of `transaction_meta`, if there is one -/
  logMessages : MessageTransaction → Option Bytes
  /-- `bytes_match` of a `Memcmp` -/
  bytesMatch : Bytes → Bytes → Bool
  /-- `SplToken2022Account::valid_account_data` -/
  validAccountData : Bytes → Bool
  /-- the fields of the configs that the filters look at -/
  programFilters : Bytes → List RpcFilterType
  blockKind : Bytes → BlockSubscriptionKind
  transactionFilter : Bytes → TransactionFilter
  /-- the notifications, with what the filter returned of the config -/
  accountJson : SubscriptionId → MessageAccount → Bytes → String
  programJson : SubscriptionId → MessageAccount → Bytes → String
  logsJson : SubscriptionId → MessageTransaction → Bytes × Bytes → String
  slotJson : SubscriptionId → MessageSlot → Slot → String
  slotsUpdatesJson : SubscriptionId → MessageSlot → Option SlotTransactionStats → String
  blockJson : SubscriptionId → MessageBlock → Bytes → String
  rootJson : SubscriptionId → Slot → String
  transactionJson : SubscriptionId → MessageTransaction → Bytes → String

/-! ### The filters -/

/-- `TransactionFilter::matches`. -/
def TransactionFilter.matches (f : FilterEnv) (filter : TransactionFilter) (msg : MessageTransaction) :
    Except Panic Bool :=
  let keys := f.accountKeys msg
  let accounts : Bool :=
    (filter.accountInclude.isEmpty || filter.accountInclude.any (· ∈ keys)) &&
      !filter.accountExclude.any (· ∈ keys) && filter.accountRequired.all (· ∈ keys)
  if filter.vote.any (· ≠ f.vote msg) then .ok false
  else if filter.failed.any (· ≠ f.failed msg) then .ok false
  else
    match filter.signature with
    | none => .ok accounts
    | some signature =>
      match msg.signatureRef with
      | .error e => .error e
      | .ok bytes => .ok (signature.val = bytes && accounts)

namespace SubscribeConfig

variable (f : FilterEnv)

def filterAccount (config : SubscribeConfig) (msg : MessageAccount) : Option Bytes :=
  match config with
  | .account pubkey _ body => if pubkey = msg.pubkey then some body else none
  | _ => none

def filterProgram (config : SubscribeConfig) (msg : MessageAccount) : Option Bytes :=
  match config with
  | .program pubkey _ body =>
    let matched := (f.programFilters body).all fun filter =>
      match filter with
      | .dataSize size => msg.data.length = size
      | .memcmp memcmp => f.bytesMatch memcmp msg.data
      | .tokenAccountState => f.validAccountData msg.data
    if pubkey = msg.owner ∧ matched then some body else none
  | _ => none

/-- The error and the logs. -/
def filterLogs (config : SubscribeConfig) (msg : MessageTransaction) : Option (Bytes × Bytes) :=
  match config with
  | .logs kind _ =>
    let filtered : Bool := match kind with
      | .all => !f.vote msg
      | .allWithVotes => true
      | .single pubkey => (f.accountKeys msg).any fun key => key = pubkey
    if filtered then
      match f.txError msg, f.logMessages msg with
      | some err, some messages => some (err, messages)
      | _, _ => none
    else none
  | _ => none

def filterBlock (config : SubscribeConfig) (msg : MessageBlock) : Option Bytes :=
  match config with
  | .block _ body =>
    let filtered : Bool := match f.blockKind body with
      | .all => true
      | .mentionsAccountOrProgram pubkey => msg.transactions.any fun tx => pubkey ∈ f.accountKeys tx
    if filtered then some body else none
  | _ => none

def filterTransaction (config : SubscribeConfig) (msg : MessageTransaction) :
    Except Panic (Option Bytes) :=
  match config with
  | .transaction _ body =>
    ((f.transactionFilter body).matches f msg).map fun matched => if matched then some body else none
  | _ => .ok none

end SubscribeConfig

/-! ### The jobs -/

namespace FilterEnv

variable (f : FilterEnv)

def filterJob (slotFinalized : Slot) (job : Job) : Except Panic (Option JobNotification) :=
  let id := job.subscription.id
  let config := job.subscription.config
  let notify (json : Option String) : Option JobNotification := json.map (⟨id, job.method, false, ·⟩)
  match job.method, job.message.message with
  | .account, .account msg => .ok (notify ((config.filterAccount msg).map (f.accountJson id msg)))
  | .program, .account msg => .ok (notify ((config.filterProgram f msg).map (f.programJson id msg)))
  | .logs, .transaction msg => .ok (notify ((config.filterLogs f msg).map (f.logsJson id msg)))
  | .signature, .transaction msg =>
    (Worker.filterSignature f.toWorkerEnv config msg).map fun err => err.map fun err =>
      ⟨id, .signature, true, f.encode id ⟨msg.slot, err⟩⟩
  | .slot, .slot msg =>
    .ok (notify (if msg.status = .slotCreatedBank then some (f.slotJson id msg slotFinalized) else none))
  | .slotsUpdates, .slot msg =>
    -- a frozen slot is reported with its statistics only
    .ok (notify (if msg.status = .slotProcessed then
        job.extraInfo.map fun stats => f.slotsUpdatesJson id msg (some stats)
      else some (f.slotsUpdatesJson id msg none)))
  | .block, .block msg => .ok (notify ((config.filterBlock f msg).map (f.blockJson id msg)))
  | .root, .slot msg =>
    .ok (notify (if msg.status = .slotFinalized then some (f.rootJson id msg.slot) else none))
  | .transaction, .transaction msg =>
    (config.filterTransaction f msg).map fun body => notify (body.map (f.transactionJson id msg))
  | _, _ => .ok none

def filterJobs (slotFinalized : Slot) : List Job → Except Panic (List JobNotification)
  | [] => .ok []
  | job :: jobs =>
    match f.filterJob slotFinalized job with
    | .error e => .error e
    | .ok notification => (filterJobs slotFinalized jobs).map (notification.toList ++ ·)

/-- `collect_jobs`, through the index. -/
def collectJobs (s : Subscriptions) (level : CommitmentLevel) (message : ParsedMessage) :
    Except WorkerError (List Job) :=
  match (s.index level).candidates f.accountKeys message with
  | .error e => .error (.panic e)
  | .ok candidates =>
    match s.jobs candidates with
    | .error e => .error (.inconsistent e)
    | .ok jobs => .ok (jobs.map fun job => ⟨job.1, message, job.2, none⟩)

end FilterEnv

/-- Every subscription of the commitment, without the index. -/
def Subscriptions.scanJobs (s : Subscriptions) (level : CommitmentLevel) (message : ParsedMessage) :
    List Job :=
  (s.subscriptions.values.filter (·.config.commitmentLevel = level)).map fun subscription =>
    ⟨subscription.config.method, message, subscription, none⟩

end Richat
