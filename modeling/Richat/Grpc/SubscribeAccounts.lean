import Richat.Filter.UpdatesSpec
import Richat.Grpc.SubscribeClient

/-!
# `subscribe_accounts`

A client of `subscribe_accounts` sends public keys to add and to remove. The server keeps the set of them
over the requests, and makes a filter of it at each request; the rest is what `subscribe2` does for all
clients. The handler of the requests and the workers hold the lock of the client while they use its state, so
a request and the filtering of a message are one step each.

`ChannelView` is what a request finds in the channel and in the storage. The set of public keys is a list
without repeats. What is queued for the client is left out, and how an error of the limits is shown.
-/

namespace Richat.Filter

open Lib

/-! ### Requests -/

structure SubscribeAccountsRequest where
  ping : Option Int32
  fromSlot : Option UInt64
  filter : String
  add : List Bytes
  remove : List Bytes

def tryConv (bytes : Bytes) : Except String Pubkey :=
  if h : bytes.length = 32 then .ok ⟨bytes, h⟩ else .error "invalid pubkey len"

/-- A loop over public keys: the set when it ends, and its error. -/
def applyKeys (apply : List Pubkey → Pubkey → List Pubkey) :
    List Bytes → List Pubkey → List Pubkey × Except String Unit
  | [], pubkeys => (pubkeys, .ok ())
  | item :: items, pubkeys =>
    match tryConv item with
    | .error error => (pubkeys, .error error)
    | .ok pubkey => applyKeys apply items (apply pubkeys pubkey)

/-- The keys of a request are added, then removed. -/
def updateKeys (message : SubscribeAccountsRequest) (pubkeys : List Pubkey) :
    List Pubkey × Except String Unit :=
  match applyKeys (fun pubkeys pubkey => pubkeys.insert pubkey) message.add pubkeys with
  | (pubkeys, .error error) => (pubkeys, .error error)
  | (pubkeys, .ok ()) => applyKeys (fun pubkeys pubkey => pubkeys.erase pubkey) message.remove pubkeys

def accountsConfig (filter : String) (pubkeys : List Pubkey) : ConfigFilter where
  slots := [(filter, ⟨none, none⟩)]
  accounts := [("", ⟨pubkeys, [], [], none⟩)]
  accountsDataSlice := []
  transactions := []
  transactionsStatus := []
  entries := []
  entriesUpdateParent := []
  blocksMeta := [""]
  blocks := []
  blockFooter := []
  commitment := none

/-- The parameters of the server. -/
structure AccountsEnv where
  limits : ConfigLimits
  /-- `{error:?}` -/
  debug : ConfigLimitsError → String
  validAccountData : Bytes → Bool

/-- The closure `get_filter`: the set after the request, and its filter. -/
def getFilter (env : AccountsEnv) (message : SubscribeAccountsRequest) (pubkeys : List Pubkey) :
    Except FilterPanic (List Pubkey × Except Status ClientFilter) :=
  match updateKeys message pubkeys with
  | (pubkeys, .error error) => .ok (pubkeys, .error (.invalidArgument error))
  | (pubkeys, .ok ()) =>
    let config := accountsConfig message.filter pubkeys
    match (env.limits.checkFilter config).run with
    | .error panic => .error panic
    | .ok (.error error) =>
      .ok (pubkeys, .error (.invalidArgument ("failed to check filter: " ++ env.debug error)))
    | .ok (.ok ()) =>
      match ClientFilter.new config with
      | .error panic => .error panic
      | .ok filter => .ok (pubkeys, .ok filter)

/-! ### The client -/

structure ChannelView where
  recoveryEpoch : CommitmentLevel → ℕ
  getCurrentTailWithReplay : CommitmentLevel → Option Slot → Except String IndexLocation
  /-- the epoch after the place was taken -/
  recoveryEpochAfter : CommitmentLevel → ℕ
  supportsBlockReplay : IndexLocation → Bool
  replayFromStorage : Except String Unit

/-- A request with a filter, under the lock of the client. -/
def setFilter (view : ChannelView) (fromSlot : Option Slot) (filter : ClientFilter)
    (state : SubscribeClientState ClientFilter) : Except Status (SubscribeClientState ClientFilter) :=
  let commitment := filter.commitment
  let recoveryEpoch := view.recoveryEpoch commitment
  let newHead : Except Status (Option IndexLocation) :=
    if state.filter.isNone ∨ commitment ≠ state.commitment ∨ fromSlot.isSome then
      match view.getCurrentTailWithReplay commitment fromSlot with
      | .error error => .error (.invalidArgument error)
      | .ok head => .ok (some head)
    else .ok none
  match newHead with
  | .error error => .error error
  | .ok newHead =>
    if fromSlot.isSome ∧ recoveryEpoch ≠ view.recoveryEpochAfter commitment then .error .gap
    else if filter.blocks ≠ [] ∧ !view.supportsBlockReplay (newHead.getD state.head) then
      .error (.invalidArgument "requested slot predates block-aware disk storage")
    else
      match newHead with
      | none => .ok (SubscribeClient.setHead state filter none)
      | some head =>
        match if head.isStorage then view.replayFromStorage else .ok () with
        | .error error => .error (.resourceExhausted error)
        | .ok () => .ok (SubscribeClient.setHead state filter (some ⟨head, commitment, fromSlot, recoveryEpoch⟩))

/-- What a worker makes of the next message for the client. -/
def getUpdates (env : AccountsEnv) (state : SubscribeClientState ClientFilter) (message : Message) :
    Except FilterPanic (List FilteredUpdate) :=
  if state.finished then .ok []
  else
    match state.filter with
    | none => .ok []
    | some filter =>
      if state.replayFromSlot.any (message.slotOf.toNat < ·) then .ok []
      else filter.getUpdatesRef env.validAccountData message state.commitment

structure AccountsStream where
  pubkeys : List Pubkey
  state : SubscribeClientState ClientFilter
  /-- the loop over the requests goes on -/
  reading : Bool

inductive AccountsAction where
  | request (message : SubscribeAccountsRequest) (view : ChannelView)
  /-- no more requests come, or the next one cannot be received -/
  | requestsEnd
  /-- another thread ends the stream, or the client does -/
  | finish
  | take (message : Message)

inductive AccountsEvent where
  | pong (id : Int32)
  | accepted (message : SubscribeAccountsRequest)
  | rejected (error : Status)
  | taken (message : Message) (updates : List FilteredUpdate)

inductive AccountsHalt where
  | panic (panic : FilterPanic)
  /-- requests are no longer read -/
  | closed

namespace AccountsStream

def new : AccountsStream := ⟨[], .new ClientFilter, true⟩

def step (env : AccountsEnv) : Step AccountsStream AccountsAction AccountsEvent AccountsHalt
  | s, .request message view =>
    if s.reading then
      match message.ping with
      | some id => .ok (s, [.pong id])
      | none =>
        match getFilter env message s.pubkeys with
        | .error panic => .error (.panic panic)
        | .ok (pubkeys, newFilter) =>
          match newFilter.bind fun filter =>
              setFilter view (message.fromSlot.map UInt64.toNat) filter s.state with
          | .ok state => .ok ({ s with pubkeys, state }, [.accepted message])
          | .error error =>
            .ok (⟨pubkeys, { s.state with finished := true }, false⟩, [.rejected error])
    else .error .closed
  | s, .requestsEnd => .ok ({ s with reading := false }, [])
  | s, .finish => .ok ({ s with state := { s.state with finished := true } }, [])
  | s, .take message =>
    match getUpdates env s.state message with
    | .error panic => .error (.panic panic)
    | .ok updates => .ok (s, [.taken message updates])

end AccountsStream

end Richat.Filter
