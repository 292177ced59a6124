import Richat.Channel.SharedChannel
import Richat.Pubsub.CachedSignatures

/-!
# The worker of the subscriptions

One thread reads the three streams, keeps the cache of signatures and the statistics of slots, matches the messages
against the subscriptions, and delivers the notifications. A tick handles some requests of clients, reads at most
`maxMessagesPerCommitmentPerTick` messages of each stream, and delivers what they match.

`Worker.step` is one piece of this that the senders of the streams and the clients can see: a request, the load of
a published tail, the read of a cell, a delivery. Between them the streams take messages and the clients take from
their queues. When to stop taking requests is up to the queue of the requests, so it is an action.

What the worker reads of the bodies of messages and how it encodes is `WorkerEnv`.
-/

namespace Richat

open Lib

/-! ### The statistics of slots -/

structure SlotTransactionStats where
  numTransactionEntries : ℕ
  numSuccessfulTransactions : ℕ
  numFailedTransactions : ℕ
  maxTransactionsPerEntry : ℕ

structure SlotTransactionStatsItem where
  slot : Slot
  createdAt : Timestamp
  hasMeta : Bool
  numTransactions : ℕ
  numEntries : ℕ
  numTxSuccess : ℕ
  numTxFailed : ℕ
  numEntriesReceived : ℕ
  maxTxPerEntry : ℕ

/-- What the worker calls for the messages and the configs. -/
structure WorkerEnv where
  size : ParsedMessage → ℕ
  hash : SubscribeConfig → ℕ
  /-- the json of a signature notification -/
  encode : SubscriptionId → CachedSignature → String
  accountKeys : MessageTransaction → List Pubkey
  /-- `create_tx_error` -/
  txError : MessageTransaction → Option Bytes
  failed : MessageTransaction → Bool
  executedTransactionCount : MessageEntry → ℕ
  createdAt : MessageSlot → Timestamp
  /-- the body of a `SlotProcessed` status -/
  processedBody : Timestamp → Bytes
  /-- the other methods of `filter_job`, with the finalized slot -/
  filter : SubscribeMethod → ParsedMessage → SubscriptionInfo → Option SlotTransactionStats → Slot →
    Option String

namespace SlotTransactionStatsItem

def default : SlotTransactionStatsItem := ⟨0, ⟨0, 0⟩, false, 0, 0, 0, 0, 0, 0⟩

variable (env : WorkerEnv)

def tryCreate (item : SlotTransactionStatsItem) : Option (ParsedMessage × SlotTransactionStats) :=
  if item.slot ≠ 0 ∧ item.hasMeta ∧ item.numTransactions = item.numTxSuccess + item.numTxFailed ∧
      item.numEntries = item.numEntriesReceived then
    some (⟨0, .slot ⟨item.slot, .slotProcessed, none, env.processedBody item.createdAt⟩⟩,
      { numTransactionEntries := item.numEntries
        numSuccessfulTransactions := item.numTxSuccess
        numFailedTransactions := item.numTxFailed
        maxTransactionsPerEntry := item.maxTxPerEntry })
  else none

def addCreatedAt (item : SlotTransactionStatsItem) (slot : Slot) (createdAt : Timestamp) :
    SlotTransactionStatsItem :=
  { item with slot, createdAt }

def addTx (item : SlotTransactionStatsItem) (failed : Bool) : SlotTransactionStatsItem :=
  if failed then { item with numTxFailed := item.numTxFailed + 1 }
  else { item with numTxSuccess := item.numTxSuccess + 1 }

def addEntry (item : SlotTransactionStatsItem) (executedTransactionCount : ℕ) : SlotTransactionStatsItem :=
  { item with
    numEntriesReceived := item.numEntriesReceived + 1
    maxTxPerEntry := max item.maxTxPerEntry executedTransactionCount }

def addMeta (item : SlotTransactionStatsItem) (numTransactions numEntries : ℕ) : SlotTransactionStatsItem :=
  { item with
    hasMeta := true
    numTransactions
    numEntries }

/-- What a message of the processed stream adds to the item of its slot. -/
def add (item : SlotTransactionStatsItem) (message : ParsedMessage) : Option SlotTransactionStatsItem :=
  match message.message with
  | .slot msg =>
    if msg.status = .slotProcessed then some (item.addCreatedAt msg.slot (env.createdAt msg)) else none
  | .transaction msg => some (item.addTx (env.failed msg))
  | .entry msg => some (item.addEntry (env.executedTransactionCount msg))
  | .blockMeta msg => some (item.addMeta msg.executedTransactionCount msg.entriesCount)
  | _ => none

end SlotTransactionStatsItem

/-! ### The state -/

/-- The numbers of the config. -/
structure ConfigWorker where
  maxClientsRequestPerTick : ℕ
  maxMessagesPerCommitmentPerTick : ℕ
  signaturesCacheMax : ℕ
  signaturesCacheSlotsMax : ℕ
  notificationsMaxCount : ℕ
  notificationsMaxBytes : ℕ

inductive ClientRequest where
  | register (client : ClientId) (maxCount : ℕ)
  | subscribe (client : ClientId) (config : SubscribeConfig)
  | unsubscribe (client : ClientId) (id : SubscriptionId)
  | remove (client : ClientId)

def ClientRequest.action (signatures : SignaturesCache) : ClientRequest → TrackerAction
  | register client maxCount => .register client maxCount
  | subscribe client config => .subscribe client config signatures.cached
  | unsubscribe client id => .unsubscribe client id
  | remove client => .remove client

structure Job where
  method : SubscribeMethod
  message : ParsedMessage
  subscription : SubscriptionInfo
  extraInfo : Option SlotTransactionStats

/-- A filtered message, encoded. -/
structure JobNotification where
  subscriptionId : SubscriptionId
  method : SubscribeMethod
  isFinal : Bool
  json : String

/-- The messages of a tick, while the stream `level` is read. -/
structure Tick where
  messagesExtra : List (ParsedMessage × SlotTransactionStats)
  jobs : List Job
  level : CommitmentLevel
  messages : List ParsedMessage
  /-- the tail that `try_recv` has loaded is not below the head -/
  reading : Bool

namespace Tick

def start : Tick := ⟨[], [], .processed, [], false⟩

/-- A message that `try_recv` returned: slot messages count for the processed stream only. -/
def receive (tick : Tick) (message : ParsedMessage) : Tick :=
  if tick.level ≠ .processed ∧ message.message.isSlot then { tick with reading := false }
  else { tick with messages := tick.messages ++ [message], reading := false }

end Tick

inductive WorkerPhase where
  /-- the heads of these streams are not loaded yet -/
  | heads (levels : List CommitmentLevel)
  /-- so many requests are handled in this tick -/
  | requests (n : ℕ)
  | collect (tick : Tick)
  | deliver (notifications : List JobNotification)
  /-- `try_recv` failed, and the worker has returned its error -/
  | stopped

structure Worker where
  rings : CommitmentLevel → Channel
  tracker : Tracker
  signatures : SignaturesCache
  heads : CommitmentLevel → ℕ
  slotFinalized : Slot
  slotsStats : SortedMap Slot SlotTransactionStatsItem
  phase : WorkerPhase

inductive WorkerAction where
  | ring (level : CommitmentLevel) (action : ChannelAction)
  | loadHead
  | request (request : ClientRequest)
  /-- no more requests in this tick -/
  | collect
  /-- `try_recv` loads the tail, unless there are enough messages -/
  | load
  /-- `try_recv` reads its cell -/
  | read
  | deliver
  /-- a client takes a notification from its queue -/
  | recv (channel : ℕ)
  /-- a client drops its queue -/
  | close (channel : ℕ)

inductive WorkerEvent where
  | ring (level : CommitmentLevel) (event : ChannelEvent)
  | started (level : CommitmentLevel)
  | consumed (level : CommitmentLevel) (message : ParsedMessage)
  /-- `try_recv` returned `Ok(None)` -/
  | empty (level : CommitmentLevel)
  /-- `try_recv` returned `RecvError::Lagged` -/
  | lagged (level : CommitmentLevel)
  | sent (event : TrackerEvent)

inductive WorkerError where
  /-- not an action of the phase -/
  | order
  | ring (error : Stuck)
  | panic (panic : Panic)
  /-- a failed `expect` or `assert!` -/
  | inconsistent (text : String)

namespace Worker

/-- The streams and the worker before its start. -/
def new (cfg : ConfigWorker) (channel : ConfigChannelInner) : Worker where
  rings := fun _ => .new channel
  tracker := .new cfg.notificationsMaxCount cfg.notificationsMaxBytes
  signatures := .new cfg.signaturesCacheMax cfg.signaturesCacheSlotsMax
  heads := fun _ => 0
  slotFinalized := 0
  slotsStats := .empty
  phase := .heads [.processed, .confirmed, .finalized]

section Parts

variable (env : WorkerEnv)

/-- The finalized slot and the statistics, for a message of the processed stream. -/
def observe (s : Worker) (message : ParsedMessage) :
    Except Panic (Worker × Option (ParsedMessage × SlotTransactionStats)) :=
  match SignaturesCache.update env.txError s.signatures message with
  | .error e => .error e
  | .ok (signatures, _) =>
    let s := { s with signatures }
    match message.message with
    | .slot ⟨slot, .slotFinalized, _, _⟩ => .ok
        ({ s with
          slotFinalized := slot
          slotsStats := s.slotsStats.popWhile (· ≤ slot) }, none)
    | _ =>
      match ((s.slotsStats.get? message.slot).getD .default).add env message with
      | none => .ok (s, none)
      | some item =>
        .ok ({ s with slotsStats := s.slotsStats.insert message.slot item }, item.tryCreate env)

/-- `collect_jobs`, after the message of the processed stream is observed. -/
def collectMessage (s : Worker) (tick : Tick) (message : ParsedMessage) :
    Except WorkerError (Worker × Tick) :=
  match if tick.level = .processed then s.observe env message else .ok (s, none) with
  | .error e => .error (.panic e)
  | .ok (s, extra) =>
    match (s.tracker.subscriptions.index tick.level).candidates env.accountKeys message with
    | .error e => .error (.panic e)
    | .ok candidates =>
      match s.tracker.subscriptions.jobs candidates with
      | .error e => .error (.inconsistent e)
      | .ok jobs => .ok (s,
          { tick with
            messagesExtra := tick.messagesExtra ++ extra.toList
            jobs := tick.jobs ++ jobs.map fun job => ⟨job.1, message, job.2, none⟩ })

def collectMessages : List ParsedMessage → Worker → Tick → Except WorkerError (Worker × Tick)
  | [], s, tick => .ok (s, tick)
  | message :: messages, s, tick =>
    match s.collectMessage env tick message with
    | .error e => .error e
    | .ok (s, tick) => collectMessages messages s tick

/-- `collect_slots_updates_jobs` for the messages that complete the statistics of their slots. -/
def collectSlotsUpdatesJobs (s : Worker) (tick : Tick) : Except WorkerError (List Job) :=
  let ids := ((s.tracker.subscriptions.index .processed).unkeyed .slotsUpdates).keys
  match s.tracker.subscriptions.jobs (ids.map (SubscribeMethod.slotsUpdates, ·)) with
  | .error e => .error (.inconsistent e)
  | .ok jobs => .ok (tick.messagesExtra.flatMap fun extra =>
      jobs.map fun job => ⟨job.1, extra.1, job.2, some extra.2⟩)

/-- `filter_signature`. -/
def filterSignature (config : SubscribeConfig) (message : MessageTransaction) : Except Panic (Option Bytes) :=
  match config with
  | .signature signature _ =>
    match message.signatureRef with
    | .error e => .error e
    | .ok bytes => .ok (if signature.val = bytes then env.txError message else none)
  | _ => .ok none

def filterJob (slotFinalized : Slot) (job : Job) : Except Panic (Option JobNotification) :=
  match job.method, job.message.message with
  | .signature, .transaction msg =>
    (filterSignature env job.subscription.config msg).map fun err => err.map fun err =>
      ⟨job.subscription.id, .signature, true, env.encode job.subscription.id ⟨msg.slot, err⟩⟩
  | .signature, _ => .ok none
  | method, _ =>
    .ok ((env.filter method job.message job.subscription job.extraInfo slotFinalized).map fun json =>
      ⟨job.subscription.id, method, false, json⟩)

def filterJobs (slotFinalized : Slot) : List Job → Except Panic (List JobNotification)
  | [] => .ok []
  | job :: jobs =>
    match filterJob env slotFinalized job with
    | .error e => .error e
    | .ok notification => (filterJobs slotFinalized jobs).map (notification.toList ++ ·)

/-- The messages of the stream are collected: the next stream, or the filters. -/
def finishStream (s : Worker) (tick : Tick) : Except WorkerError Worker :=
  match s.collectMessages env tick.messages tick with
  | .error e => .error e
  | .ok (s, tick) =>
    let next (level : CommitmentLevel) := { tick with level, messages := [], reading := false }
    match tick.level with
    | .processed => .ok { s with phase := .collect (next .confirmed) }
    | .confirmed => .ok { s with phase := .collect (next .finalized) }
    | .finalized =>
      match s.collectSlotsUpdatesJobs tick with
      | .error e => .error e
      | .ok extra =>
        let jobs := tick.jobs ++ extra
        if jobs.isEmpty then .ok { s with phase := .requests 0 }
        else
          match filterJobs env s.slotFinalized jobs with
          | .error e => .error (.panic e)
          | .ok notifications => .ok { s with phase := .deliver notifications }

/-- The tracker takes a step. -/
def track (s : Worker) (action : TrackerAction) (phase : WorkerPhase) :
    Except WorkerError (Worker × List WorkerEvent) :=
  match Tracker.step env.hash env.encode s.tracker action with
  | .error e => .error (.inconsistent e)
  | .ok (tracker, events) => .ok ({ s with tracker, phase }, events.map .sent)

end Parts

def step (env : WorkerEnv) (cfg : ConfigWorker) : Step Worker WorkerAction WorkerEvent WorkerError
  | s, .ring level action =>
    match Channel.step env.size (s.rings level) action with
    | .error e => .error (.ring e)
    | .ok (ring, events) =>
      .ok ({ s with rings := Function.update s.rings level ring }, events.map (.ring level))
  | s, .loadHead =>
    match s.phase with
    | .heads (level :: levels) => .ok
        ({ s with
          heads := Function.update s.heads level (s.rings .processed).sender.shared.tail
          phase := if levels.isEmpty then .requests 0 else .heads levels }, [.started level])
    | _ => .error .order
  | s, .request request =>
    match s.phase with
    | .requests n =>
      if n < cfg.maxClientsRequestPerTick then
        s.track env (request.action s.signatures) (.requests (n + 1))
      else .error .order
    | _ => .error .order
  | s, .collect =>
    match s.phase with
    | .requests _ => .ok ({ s with phase := .collect .start }, [])
    | _ => .error .order
  | s, .load =>
    match s.phase with
    | .collect tick =>
      if tick.reading then .error .order
      else if tick.messages.length < cfg.maxMessagesPerCommitmentPerTick then
        if s.heads tick.level ≤ (s.rings tick.level).sender.shared.tail then
          .ok ({ s with phase := .collect { tick with reading := true } }, [])
        else (s.finishStream env tick).map (·, [.empty tick.level])
      else (s.finishStream env tick).map (·, [])
    | _ => .error .order
  | s, .read =>
    match s.phase with
    | .collect tick =>
      if tick.reading then
        let head := s.heads tick.level
        let item := (s.rings tick.level).sender.shared.item head
        if item.pos ≠ head then .ok ({ s with phase := .stopped }, [.lagged tick.level])
        else
          match item.data with
          | none => .ok ({ s with phase := .stopped }, [.lagged tick.level])
          | some message => .ok
              ({ s with
                heads := Function.update s.heads tick.level (head + 1)
                phase := .collect (tick.receive message) }, [.consumed tick.level message])
      else .error .order
    | _ => .error .order
  | s, .deliver =>
    match s.phase with
    | .deliver [] => .ok ({ s with phase := .requests 0 }, [])
    | .deliver (n :: notifications) =>
      s.track env (.deliver n.subscriptionId n.method n.isFinal n.json) (.deliver notifications)
    | _ => .error .order
  | s, .recv channel => s.track env (.recv channel) s.phase
  | s, .close channel => s.track env (.close channel) s.phase

end Worker

namespace WorkerEvent

def ring? (level : CommitmentLevel) : WorkerEvent → Option ChannelEvent
  | ring l event => if l = level then some event else none
  | _ => none

def consumed? (level : CommitmentLevel) : WorkerEvent → Option ParsedMessage
  | consumed l message => if l = level then some message else none
  | _ => none

end WorkerEvent

/-- What happened on a stream. -/
def channelEvents (level : CommitmentLevel) (events : List WorkerEvent) : List ChannelEvent :=
  events.filterMap (·.ring? level)

/-- The messages that the worker has taken from a stream. -/
def consumedFrom (level : CommitmentLevel) (events : List WorkerEvent) : List ParsedMessage :=
  events.filterMap (·.consumed? level)

end Richat
