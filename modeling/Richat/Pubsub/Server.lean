import Richat.Pubsub.Tracker

/-!
# The connections

The write loop of a client takes a request, has the tracker answer it, and writes the response; or it
takes a notification from its queue and writes it. The client knows its subscriptions by the responses it
has written. `PubSub.step` interleaves the write loops of all clients with the tracker.

A request is in the channel to the tracker until the tracker serves it, also when the connection is
closed meanwhile; `Remove` comes after it. Frames that are no requests to the tracker are left out. The
body of a notification is there as long as `RpcNotifications` has it, or the write loop of another client
has it, which the action says.
-/

namespace Richat

open Lib

inductive ConnectionRequest where
  | subscribe (config : SubscribeConfig)
  | unsubscribe (id : SubscriptionId)

inductive ConnectionResponse where
  | subscribed (id : SubscriptionId) (method : SubscribeMethod)
  | unsubscribed (id : SubscriptionId) (removed : Bool)
  deriving DecidableEq

inductive CloseReason where
  /-- `lagged: memory` -/
  | laggedMemory
  /-- `lagged: len` -/
  | laggedLen
  /-- the client or the server goes away -/
  | shutdown
  deriving DecidableEq

/-- Where the write loop is. -/
inductive ConnectionPhase where
  | select
  /-- the tracker is asked -/
  | waiting
  | responding (response : ConnectionResponse)
  | closed (reason : CloseReason)
  deriving DecidableEq

def ConnectionPhase.isClosed : ConnectionPhase → Bool
  | closed _ => true
  | select | waiting | responding _ => false

/-- The subscriptions of a client after a response. -/
def ConnectionResponse.apply (subscriptions : IntMap SubscribeMethod) :
    ConnectionResponse → IntMap SubscribeMethod
  | .subscribed id method => subscriptions.insert id method
  | .unsubscribed id removed => if removed then subscriptions.erase id else subscriptions

structure Connection where
  phase : ConnectionPhase
  /-- the request in the channel to the tracker -/
  request : Option ConnectionRequest
  subscriptions : IntMap SubscribeMethod

/-- The tracker and the connections; the id of a client is the place of its connection, and its channel
has the same number. -/
structure PubSub where
  tracker : Tracker
  connections : List Connection

inductive PubSubAction where
  | connect (maxCount : ℕ)
  | request (client : ClientId) (request : ConnectionRequest)
  /-- the tracker takes the request of the client -/
  | serve (client : ClientId) (signatures : CachedSignatures)
  /-- the response is written -/
  | respond (client : ClientId)
  | deliver (id : SubscriptionId) (method : SubscribeMethod) (isFinal : Bool) (json : String)
  /-- the next notification is taken from the queue; another client may be writing its body -/
  | read (client : ClientId) (held : Bool)
  | disconnect (client : ClientId)
  /-- the tracker takes the `Remove` of the client -/
  | remove (client : ClientId)

inductive PubSubEvent where
  | produced (event : TrackerEvent)
  /-- the tracker has ended the subscription of the client -/
  | unsubscribed (client : ClientId) (id : SubscriptionId)
  | response (client : ClientId) (response : ConnectionResponse)
  | written (client : ClientId) (notification : RpcNotification)
  /-- unsubscribed while the notification was queued -/
  | skipped (client : ClientId) (notification : RpcNotification)
  /-- the body is gone -/
  | evicted (client : ClientId) (notification : RpcNotification)
  | closed (client : ClientId) (reason : CloseReason)
  | removed (client : ClientId)
  deriving DecidableEq

/-- The action is not possible, or the tracker fails. -/
inductive PubSubStuck where
  | blocked
  | failed (message : String)

namespace PubSub

def new (maxCount maxBytes : ℕ) : PubSub := ⟨.new maxCount maxBytes, []⟩

def setConnection (s : PubSub) (client : ClientId) (c : Connection) : PubSub :=
  { s with connections := s.connections.set client c }

/-- The write loop ends, and its end of the queue is dropped. -/
def close (s : PubSub) (client : ClientId) (c : Connection) (reason : CloseReason) : PubSub :=
  { s with tracker := s.tracker.setChannel client (s.tracker.channels client).close }.setConnection client
    { c with phase := .closed reason }

/-- The response of the tracker, for a write loop that still waits for it. -/
def answer (s : PubSub) (client : ClientId) (c : Connection) (response : ConnectionResponse) : PubSub :=
  let c := { c with request := none }
  match c.phase with
  | .waiting => s.setConnection client { c with phase := .responding response }
  | _ => s.setConnection client c

def serve (hash : SubscribeConfig → ℕ) (encode : SubscriptionId → CachedSignature → String) (s : PubSub)
    (client : ClientId) (c : Connection) (signatures : CachedSignatures) :
    ConnectionRequest → Except PubSubStuck (PubSub × List PubSubEvent)
  | .subscribe config =>
    match s.tracker.subscribe hash encode client config signatures with
    | .error e => .error (.failed e)
    | .ok (tracker, id, events) =>
      .ok ({ s with tracker }.answer client c (.subscribed id config.method), events.map .produced)
  | .unsubscribe id =>
    match s.tracker.subscriptions.unsubscribe client id with
    | .error e => .error (.failed e)
    | .ok (subscriptions, removed) =>
      .ok ({ s with tracker := { s.tracker with subscriptions } }.answer client c
          (.unsubscribed id removed),
        if removed then [.unsubscribed client id] else [])

/-- A notification that was taken from the queue. -/
def write (s : PubSub) (client : ClientId) (c : Connection) (held : Bool) (n : RpcNotification) :
    PubSub × List PubSubEvent :=
  if c.subscriptions.contains n.subscriptionId then
    let subscriptions := if n.isFinal then c.subscriptions.erase n.subscriptionId else c.subscriptions
    let c := { c with subscriptions }
    if held ∨ s.tracker.notifications.upgrade n.json then
      (s.setConnection client c, [.written client n])
    else (s.close client c .laggedMemory, [.evicted client n, .closed client .laggedMemory])
  else (s, [.skipped client n])

def step (hash : SubscribeConfig → ℕ) (encode : SubscriptionId → CachedSignature → String) :
    Step PubSub PubSubAction PubSubEvent PubSubStuck
  | s, .connect maxCount =>
    match s.tracker.register s.connections.length maxCount with
    | .error e => .error (.failed e)
    | .ok tracker =>
      .ok ({ s with tracker, connections := s.connections ++ [⟨.select, none, .empty⟩] }, [])
  | s, .request client request =>
    match s.connections[client]? with
    | some ⟨.select, none, subscriptions⟩ =>
      .ok (s.setConnection client ⟨.waiting, some request, subscriptions⟩, [])
    | _ => .error .blocked
  | s, .serve client signatures =>
    match s.connections[client]? with
    | some ⟨phase, some request, subscriptions⟩ =>
      s.serve hash encode client ⟨phase, some request, subscriptions⟩ signatures request
    | _ => .error .blocked
  | s, .respond client =>
    match s.connections[client]? with
    | some ⟨.responding response, request, subscriptions⟩ =>
      let subscriptions := ConnectionResponse.apply subscriptions response
      .ok (s.setConnection client ⟨.select, request, subscriptions⟩, [.response client response])
    | _ => .error .blocked
  | s, .deliver id method isFinal json =>
    match s.tracker.deliver id method isFinal json with
    | .error e => .error (.failed e)
    | .ok (tracker, events) => .ok ({ s with tracker }, events.map .produced)
  | s, .read client held =>
    match s.connections[client]? with
    | some ⟨.select, request, subscriptions⟩ =>
      let c : Connection := ⟨.select, request, subscriptions⟩
      let channel := s.tracker.channels client
      let s := { s with tracker := s.tracker.setChannel client channel.recv }
      match channel.queue.head? with
      | none => .error .blocked
      | some (.notification n) => .ok (s.write client c held n)
      | some .lagged => .ok (s.close client c .laggedLen, [.closed client .laggedLen])
    | _ => .error .blocked
  | s, .disconnect client =>
    match s.connections[client]? with
    | none | some ⟨.closed _, _, _⟩ => .error .blocked
    | some c => .ok (s.close client c .shutdown, [.closed client .shutdown])
  | s, .remove client =>
    match s.connections[client]? with
    | some ⟨.closed _, none, _⟩ =>
      match s.tracker.subscriptions.removeClient client with
      | .error e => .error (.failed e)
      | .ok subscriptions =>
        .ok ({ s with tracker := { s.tracker with subscriptions } }, [.removed client])
    | _ => .error .blocked

end PubSub

end Richat
