import Mathlib.Data.List.AList
import Richat.Lib.Machine
import Richat.Lib.SortedMap
import Richat.Message
import Richat.Pubsub.Notification

/-!
# The subscriptions tracker

One thread has the subscriptions of all clients. Clients that subscribe the same config share a
subscription; a message is matched by its keys (`SubscriptionsIndex::candidates`), and a notification is
encoded once and sent to every client of its subscription. A client whose queue is full is dropped, in
the middle of a delivery or of a subscribe.

The failures of the code are the texts of its `expect` and `assert!`. `Tracker.step` is one request of a
client or one delivery; between them the clients take from their queues. A delivery may come for any
subscription id: the notifications of a tick are computed before the first of them is delivered.

The hash of a config and the json of a notification are parameters. Ids and allocations do not wrap
around.
-/

namespace Richat

open Lib

inductive LogsSubscriptionKind where
  | all
  | allWithVotes
  | single (pubkey : Pubkey)
  deriving DecidableEq

/-- `SubscribeConfig` of a subscription. What only the hash and the filters read is `body`. -/
inductive SubscribeConfig where
  | account (pubkey : Pubkey) (commitment : CommitmentLevel) (body : Bytes)
  | program (pubkey : Pubkey) (commitment : CommitmentLevel) (body : Bytes)
  | logs (kind : LogsSubscriptionKind) (commitment : CommitmentLevel)
  | signature (signature : Signature) (commitment : CommitmentLevel)
  | slot
  | slotsUpdates
  | block (commitment : CommitmentLevel) (body : Bytes)
  | root
  | transaction (commitment : CommitmentLevel) (body : Bytes)
  deriving DecidableEq

namespace SubscribeConfig

def commitmentLevel : SubscribeConfig → CommitmentLevel
  | account _ commitment _ | program _ commitment _ | logs _ commitment | signature _ commitment
  | block commitment _ | transaction commitment _ => commitment
  | slot | slotsUpdates | root => .processed

def method : SubscribeConfig → SubscribeMethod
  | account .. => .account
  | program .. => .program
  | logs .. => .logs
  | signature .. => .signature
  | slot => .slot
  | slotsUpdates => .slotsUpdates
  | block .. => .block
  | root => .root
  | transaction .. => .transaction

end SubscribeConfig

/-! ### The index -/

/-- `Vec::swap_remove`: the last element takes the place. -/
def swapRemove {α : Type*} (l : List α) (i : ℕ) : List α :=
  match l.getLast? with
  | none => l
  | some x => (l.set i x).dropLast

abbrev IntMap (V : Type) := SortedMap ℕ V
abbrev IntSet := SortedMap ℕ Unit

/-- A `HashMap` of buckets. -/
abbrev Buckets (K : Type) := AList fun _ : K => List SubscriptionId

structure SubscriptionsIndex where
  account : Buckets Pubkey
  program : Buckets Pubkey
  signature : Buckets Signature
  logsMentions : Buckets Pubkey
  logsAll : IntSet
  unkeyed : SubscribeMethod → IntSet

namespace SubscriptionsIndex

def default : SubscriptionsIndex := ⟨∅, ∅, ∅, ∅, .empty, fun _ => .empty⟩

section Buckets

variable {K : Type} [DecidableEq K]

def bucketInsert (map : Buckets K) (key : K) (id : SubscriptionId) : Buckets K :=
  map.insert key ((map.lookup key).getD [] ++ [id])

def bucketRemove (map : Buckets K) (key : K) (id : SubscriptionId) : Except String (Buckets K) :=
  match map.lookup key with
  | none => .error "subscriptions index inconsistent, remove #1"
  | some ids =>
    match ids.idxOf? id with
    | none => .error "subscriptions index inconsistent, remove #2"
    | some index =>
      let ids := swapRemove ids index
      if ids.isEmpty then .ok (map.erase key) else .ok (map.insert key ids)

end Buckets

def insert (index : SubscriptionsIndex) (id : SubscriptionId) (config : SubscribeConfig) :
    SubscriptionsIndex :=
  match config with
  | .account pubkey .. => { index with account := bucketInsert index.account pubkey id }
  | .program pubkey .. => { index with program := bucketInsert index.program pubkey id }
  | .signature signature _ => { index with signature := bucketInsert index.signature signature id }
  | .logs (.single pubkey) _ => { index with logsMentions := bucketInsert index.logsMentions pubkey id }
  | .logs .. => { index with logsAll := index.logsAll.insert id () }
  | config =>
    let ids := (index.unkeyed config.method).insert id ()
    { index with unkeyed := Function.update index.unkeyed config.method ids }

def remove (index : SubscriptionsIndex) (id : SubscriptionId) (config : SubscribeConfig) :
    Except String SubscriptionsIndex :=
  match config with
  | .account pubkey .. => (bucketRemove index.account pubkey id).map ({ index with account := · })
  | .program pubkey .. => (bucketRemove index.program pubkey id).map ({ index with program := · })
  | .signature signature _ =>
    (bucketRemove index.signature signature id).map ({ index with signature := · })
  | .logs (.single pubkey) _ =>
    (bucketRemove index.logsMentions pubkey id).map ({ index with logsMentions := · })
  | .logs .. =>
    if index.logsAll.contains id then .ok { index with logsAll := index.logsAll.erase id }
    else .error "subscriptions index inconsistent, remove #3"
  | config =>
    let ids := index.unkeyed config.method
    if ids.contains id then
      .ok { index with unkeyed := Function.update index.unkeyed config.method (ids.erase id) }
    else .error "subscriptions index inconsistent, remove #4"

/-- The candidates of a message. The keys of a transaction are a parameter. -/
def candidates (accountKeys : MessageTransaction → List Pubkey) (index : SubscriptionsIndex)
    (message : ParsedMessage) : Except Panic (List (SubscribeMethod × SubscriptionId)) :=
  let unkeyed (method : SubscribeMethod) := (index.unkeyed method).keys.map (method, ·)
  let bucket (method : SubscribeMethod) (ids : Option (List SubscriptionId)) :=
    (ids.getD []).map (method, ·)
  match message.message with
  | .slot _ => .ok (unkeyed .slot ++ unkeyed .slotsUpdates ++ unkeyed .root)
  | .account msg =>
    .ok (bucket .account (index.account.lookup msg.pubkey) ++
      bucket .program (index.program.lookup msg.owner))
  | .transaction msg =>
    let logsAll := index.logsAll.keys.map (SubscribeMethod.logs, ·)
    let keys := accountKeys msg
    -- the smaller side is iterated
    let mentions := if index.logsMentions.keys.length < keys.length then
        index.logsMentions.entries.flatMap fun entry =>
          if entry.1 ∈ keys then bucket .logs (some entry.2) else []
      else keys.flatMap fun pubkey => bucket .logs (index.logsMentions.lookup pubkey)
    if index.signature.keys.isEmpty then
      .ok (logsAll ++ mentions ++ unkeyed .transaction)
    else
      match msg.signature with
      | .error e => .error e
      | .ok signature =>
        .ok (logsAll ++ mentions ++ bucket .signature (index.signature.lookup signature) ++
          unkeyed .transaction)
  | .block _ => .ok (unkeyed .block)
  | .entry _ | .blockMeta _ | .blockFooter _ | .entryUpdateParent _ => .ok []

end SubscriptionsIndex

/-! ### The subscriptions -/

structure SubscriptionInfo where
  id : SubscriptionId
  configHash : ℕ
  config : SubscribeConfig
  clients : IntSet

structure ClientInfo where
  /-- the channel of the `ClientSender` -/
  sender : ℕ
  subscriptions : IntSet

structure Subscriptions where
  subscriptionId : SubscriptionId
  subscriptionsByConfig : IntMap SubscriptionId
  subscriptions : IntMap SubscriptionInfo
  clients : IntMap ClientInfo
  index : CommitmentLevel → SubscriptionsIndex

namespace Subscriptions

def default : Subscriptions := ⟨0, .empty, .empty, .empty, fun _ => .default⟩

/-- Remove a subscription from storage and index; its clients are returned. -/
def dropSubscription (s : Subscriptions) (id : SubscriptionId) : Except String (Subscriptions × IntSet) :=
  match s.subscriptions.get? id with
  | none => .error "subscriptions storage inconsistent, drop subscription #1"
  | some subscription =>
    if ¬ s.subscriptionsByConfig.contains subscription.configHash then
      .error "subscriptions storage inconsistent, drop subscription #2"
    else
      let level := subscription.config.commitmentLevel
      match (s.index level).remove id subscription.config with
      | .error e => .error e
      | .ok index =>
        .ok ({ s with
            subscriptions := s.subscriptions.erase id
            subscriptionsByConfig := s.subscriptionsByConfig.erase subscription.configHash
            index := Function.update s.index level index }, subscription.clients)

def removeClientSubscription (s : Subscriptions) (id : SubscriptionId) (client : ClientId) :
    Except String Subscriptions :=
  match s.subscriptions.get? id with
  | none => .error "subscriptions storage inconsistent, remove client subscription #1"
  | some subscription =>
    if ¬ subscription.clients.contains client then
      .error "subscriptions storage inconsistent, remove client subscription #2"
    else
      let subscription := { subscription with clients := subscription.clients.erase client }
      let s := { s with subscriptions := s.subscriptions.insert id subscription }
      -- drop subscription if no clients left
      if subscription.clients.keys.isEmpty then
        match s.dropSubscription id with
        | .error e => .error e
        | .ok (s, _) => .ok s
      else .ok s

/-- The loop over the subscriptions of a removed client. -/
def removeClientSubscriptions (client : ClientId) :
    List SubscriptionId → Subscriptions → Except String Subscriptions
  | [], s => .ok s
  | id :: ids, s =>
    match s.removeClientSubscription id client with
    | .error e => .error e
    | .ok s => removeClientSubscriptions client ids s

def removeClient (s : Subscriptions) (client : ClientId) : Except String Subscriptions :=
  match s.clients.get? client with
  | none => .ok s
  | some info =>
    removeClientSubscriptions client info.subscriptions.keys
      { s with clients := s.clients.erase client }

/-- The loop over the clients of a dropped subscription. -/
def removeSubscriptionClients (id : SubscriptionId) :
    List ClientId → Subscriptions → Except String Subscriptions
  | [], s => .ok s
  | client :: clients, s =>
    match s.clients.get? client with
    | none => .error "subscriptions storage inconsistent, remove subscription #1"
    | some info =>
      if ¬ info.subscriptions.contains id then
        .error "subscriptions storage inconsistent, remove subscription #2"
      else
        let info := { info with subscriptions := info.subscriptions.erase id }
        removeSubscriptionClients id clients { s with clients := s.clients.insert client info }

def removeSubscription (s : Subscriptions) (id : SubscriptionId) : Except String Subscriptions :=
  match s.dropSubscription id with
  | .error e => .error e
  | .ok (s, clients) => removeSubscriptionClients id clients.keys s

def unsubscribe (s : Subscriptions) (client : ClientId) (id : SubscriptionId) :
    Except String (Subscriptions × Bool) :=
  match s.clients.get? client with
  | none => .ok (s, false)
  | some info =>
    if info.subscriptions.contains id then
      let info := { info with subscriptions := info.subscriptions.erase id }
      let s := { s with clients := s.clients.insert client info }
      match s.removeClientSubscription id client with
      | .error e => .error e
      | .ok s => .ok (s, true)
    else .ok (s, false)

/-- The subscriptions of the candidates. -/
def jobs (s : Subscriptions) :
    List (SubscribeMethod × SubscriptionId) → Except String (List (SubscribeMethod × SubscriptionInfo))
  | [] => .ok []
  | (method, id) :: candidates =>
    match s.subscriptions.get? id with
    | none => .error "subscriptions storage inconsistent, collect jobs"
    | some subscription => (s.jobs candidates).map ((method, subscription) :: ·)

end Subscriptions

/-! ### The worker -/

structure CachedSignature where
  slot : Slot
  err : Bytes

structure CachedSignatures where
  signatures : Signature → Option CachedSignature
  slotConfirmed : Slot
  slotFinalized : Slot

def CachedSignatures.get (cache : CachedSignatures) (signature : Signature)
    (commitment : CommitmentLevel) : Option CachedSignature :=
  (cache.signatures signature).filter fun cached =>
    match commitment with
    | .processed => true
    | .confirmed => cache.slotConfirmed ≥ cached.slot
    | .finalized => cache.slotFinalized ≥ cached.slot

/-- The tracker with the queues of the clients, of which it has the senders. -/
structure Tracker where
  subscriptions : Subscriptions
  notifications : RpcNotifications
  channels : ℕ → Mpsc
  /-- how many channels there are -/
  channelsLen : ℕ

/-- A notification is sent to a client, or does not fit in its queue. -/
structure TrackerEvent where
  client : ClientId
  notification : RpcNotification
  sent : Bool
  deriving DecidableEq

inductive TrackerAction where
  | register (client : ClientId) (maxCount : ℕ)
  | subscribe (client : ClientId) (config : SubscribeConfig) (signatures : CachedSignatures)
  | unsubscribe (client : ClientId) (id : SubscriptionId)
  | remove (client : ClientId)
  | deliver (id : SubscriptionId) (method : SubscribeMethod) (isFinal : Bool) (json : String)
  /-- a client takes a notification from its queue -/
  | recv (channel : ℕ)
  /-- a client drops its queue -/
  | close (channel : ℕ)

namespace Tracker

def new (maxCount maxBytes : ℕ) : Tracker :=
  ⟨.default, .new maxCount maxBytes, fun _ => ⟨0, [], true⟩, 0⟩

def setChannel (t : Tracker) (channel : ℕ) (tx : Mpsc) : Tracker :=
  { t with channels := Function.update t.channels channel tx }

@[simp] theorem setChannel_self (t : Tracker) (channel : ℕ) (tx : Mpsc) :
    (t.setChannel channel tx).channels channel = tx := Function.update_self ..

theorem setChannel_of_ne (t : Tracker) {channel other : ℕ} (h : other ≠ channel) (tx : Mpsc) :
    (t.setChannel channel tx).channels other = t.channels other := Function.update_of_ne h ..

/-- `ClientSender::send` of a client. -/
def send (t : Tracker) (sender : ℕ) (notification : RpcNotification) : Tracker × Bool :=
  let (tx, sent) := ClientSender.send (t.channels sender) notification
  (t.setChannel sender tx, sent)

def register (t : Tracker) (client : ClientId) (maxCount : ℕ) : Except String Tracker :=
  match t.subscriptions.removeClient client with
  | .error e => .error e
  | .ok s =>
    let s := { s with clients := s.clients.insert client ⟨t.channelsLen, .empty⟩ }
    .ok ({ t with
      subscriptions := s
      channelsLen := t.channelsLen + 1 }.setChannel t.channelsLen (ClientSender.channel maxCount))

/-- `Subscriptions::subscribe`. -/
def subscribe (hash : SubscribeConfig → ℕ) (encode : SubscriptionId → CachedSignature → String)
    (t : Tracker) (client : ClientId) (config : SubscribeConfig) (signatures : CachedSignatures) :
    Except String (Tracker × SubscriptionId × List TrackerEvent) :=
  let s := t.subscriptions
  let id := s.subscriptionId
  let s' := { s with subscriptionId := id + 1 }
  match s.clients.get? client with
  | none => .ok ({ t with subscriptions := s' }, id, [])
  | some info =>
    match s.subscriptionsByConfig.get? (hash config) with
    | some id =>
      let info := { info with subscriptions := info.subscriptions.insert id () }
      match s.subscriptions.get? id with
      | none => .error "subscriptions storage inconsistent, subscribe #1"
      | some subscription =>
        let subscription := { subscription with clients := subscription.clients.insert client () }
        let s := { s with
          clients := s.clients.insert client info
          subscriptions := s.subscriptions.insert id subscription }
        .ok ({ t with subscriptions := s }, id, [])
    | none =>
      let cached := match config with
        | .signature signature commitment => signatures.get signature commitment
        | _ => none
      match cached with
      | some cached =>
        let (notifications, json) := t.notifications.push (encode id cached)
        let notification : RpcNotification := ⟨id, .signature, true, json⟩
        let (t, sent) := { t with subscriptions := s', notifications }.send info.sender notification
        if sent then .ok (t, id, [⟨client, notification, true⟩])
        else
          match s'.removeClient client with
          | .error e => .error e
          | .ok s => .ok ({ t with subscriptions := s }, id, [⟨client, notification, false⟩])
      | none =>
        let info := { info with subscriptions := info.subscriptions.insert id () }
        let level := config.commitmentLevel
        let s := { s' with
          clients := s.clients.insert client info
          subscriptionsByConfig := s.subscriptionsByConfig.insert (hash config) id
          index := Function.update s.index level ((s.index level).insert id config)
          subscriptions := s.subscriptions.insert id
            ⟨id, hash config, config, SortedMap.empty.insert client ()⟩ }
        .ok ({ t with subscriptions := s }, id, [])

/-- The loop of `deliver` over the clients of the subscription. -/
def sendAll (notification : RpcNotification) :
    List ClientId → Tracker → Except String (Tracker × List TrackerEvent)
  | [], t => .ok (t, [])
  | client :: clients, t =>
    match t.subscriptions.clients.get? client with
    | none => .error "subscriptions storage inconsistent, deliver"
    | some info =>
      let (t, sent) := t.send info.sender notification
      match sendAll notification clients t with
      | .error e => .error e
      | .ok (t, events) => .ok (t, ⟨client, notification, sent⟩ :: events)

/-- The loop of `deliver` over the lagged clients. -/
def removeClients : List ClientId → Subscriptions → Except String Subscriptions
  | [], s => .ok s
  | client :: clients, s =>
    match s.removeClient client with
    | .error e => .error e
    | .ok s => removeClients clients s

/-- `Subscriptions::deliver`. -/
def deliver (t : Tracker) (id : SubscriptionId) (method : SubscribeMethod) (isFinal : Bool)
    (json : String) : Except String (Tracker × List TrackerEvent) :=
  match t.subscriptions.subscriptions.get? id with
  -- final subscription already notified in the same tick
  | none => .ok (t, [])
  | some subscription =>
    let (notifications, json) := t.notifications.push json
    match sendAll ⟨id, method, isFinal, json⟩ subscription.clients.keys { t with notifications } with
    | .error e => .error e
    | .ok (t, events) =>
      let lagged := (events.filter (!·.sent)).map (·.client)
      match if isFinal then t.subscriptions.removeSubscription id else .ok t.subscriptions with
      | .error e => .error e
      | .ok s =>
        match removeClients lagged s with
        | .error e => .error e
        | .ok s => .ok ({ t with subscriptions := s }, events)

def step (hash : SubscribeConfig → ℕ) (encode : SubscriptionId → CachedSignature → String) :
    Step Tracker TrackerAction TrackerEvent String
  | t, .register client maxCount => (t.register client maxCount).map (·, [])
  | t, .subscribe client config signatures =>
    (t.subscribe hash encode client config signatures).map fun (t, _, events) => (t, events)
  | t, .unsubscribe client id =>
    (t.subscriptions.unsubscribe client id).map fun (s, _) => ({ t with subscriptions := s }, [])
  | t, .remove client =>
    (t.subscriptions.removeClient client).map fun s => ({ t with subscriptions := s }, [])
  | t, .deliver id method isFinal json => t.deliver id method isFinal json
  | t, .recv channel => .ok (t.setChannel channel (t.channels channel).recv, [])
  | t, .close channel => .ok (t.setChannel channel (t.channels channel).close, [])

end Tracker

end Richat
