import Mathlib.Tactic

/-!
# Notifications

An encoded notification is behind an `Arc` that only the tracker's `RpcNotifications` holds; the queue of
a client has `Weak` references to it. An allocation is a number, `RpcNotifications::push` gives each
body its own.

The queue of a client is a bounded channel with one place more than the setting says. The tracker is its
only sender, and it uses the last place for `Lagged` only.
-/

namespace Richat

abbrev ClientId := ℕ
abbrev SubscriptionId := ℕ

inductive SubscribeMethod where
  | account | program | logs | signature | slot | slotsUpdates | block | root | transaction
  deriving DecidableEq

structure RpcNotification where
  subscriptionId : SubscriptionId
  method : SubscribeMethod
  isFinal : Bool
  /-- the allocation that the `Weak` refers to -/
  json : ℕ
  deriving DecidableEq

inductive ClientNotification where
  | notification (notification : RpcNotification)
  /-- the queue was full: the tracker sends nothing more -/
  | lagged
  deriving DecidableEq

/-! ### The queue of a client -/

/-- A bounded channel. -/
structure Mpsc where
  size : ℕ
  queue : List ClientNotification
  /-- the receiver was dropped -/
  closed : Bool

namespace Mpsc

/-- `Sender::capacity`. -/
def capacity (c : Mpsc) : ℕ := c.size - c.queue.length

/-- `Sender::try_send`; what cannot be sent is lost. -/
def trySend (c : Mpsc) (item : ClientNotification) : Mpsc :=
  if c.closed ∨ c.capacity = 0 then c else { c with queue := c.queue ++ [item] }

/-- `Receiver::recv` of an item. -/
def recv (c : Mpsc) : Mpsc := { c with queue := c.queue.tail }

def close (c : Mpsc) : Mpsc := { c with queue := [], closed := true }

end Mpsc

/-- `tokio::sync::Semaphore::MAX_PERMITS`. -/
def maxPermits : ℕ := (2 ^ 64 - 1) / 2 ^ 3

namespace ClientSender

/-- `ClientSender::channel`. -/
def channel (maxCount : ℕ) : Mpsc := ⟨max 1 (min maxCount (maxPermits - 1)) + 1, [], false⟩

/-- `ClientSender::send`: `false` for a client that is lagged. -/
def send (tx : Mpsc) (notification : RpcNotification) : Mpsc × Bool :=
  if tx.capacity ≤ 1 then (tx.trySend .lagged, false)
  else (tx.trySend (.notification notification), true)

end ClientSender

/-! ### The bodies -/

structure RpcNotifications where
  /-- the bodies with their allocations -/
  items : List (ℕ × String)
  bytesTotal : ℕ
  maxCount : ℕ
  maxBytes : ℕ
  /-- the next allocation -/
  allocated : ℕ

namespace RpcNotifications

def new (maxCount maxBytes : ℕ) : RpcNotifications := ⟨[], 0, maxCount, maxBytes, 0⟩

/-- The loop that makes place for a body. -/
def evict (maxCount maxBytes : ℕ) : List (ℕ × String) → ℕ → List (ℕ × String) × ℕ
  | [], bytesTotal => ([], bytesTotal)
  | item :: items, bytesTotal =>
    if bytesTotal ≥ maxBytes ∨ items.length + 1 ≥ maxCount then
      evict maxCount maxBytes items (bytesTotal - item.2.utf8ByteSize)
    else (item :: items, bytesTotal)

/-- `RpcNotifications::push`. -/
def push (n : RpcNotifications) (json : String) : RpcNotifications × ℕ :=
  let (items, bytesTotal) := evict n.maxCount n.maxBytes n.items (n.bytesTotal + json.utf8ByteSize)
  ({ n with items := items ++ [(n.allocated, json)], bytesTotal, allocated := n.allocated + 1 },
    n.allocated)

/-- `Weak::upgrade`, when no other client is writing the body. -/
def upgrade (n : RpcNotifications) (json : ℕ) : Bool := n.items.any (·.1 = json)

end RpcNotifications

end Richat
