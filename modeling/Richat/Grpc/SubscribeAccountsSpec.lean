import Richat.Grpc.SubscribeAccounts

/-!
# The set of a client and its filter

The requests that were accepted give a set: the keys of each are added, then removed. The list of the server
has the members of this set as long as the stream has not ended, and the filter that is in place was made of
it. It takes the accounts of the set, unless the set is empty: for a filter no key means every key.
-/

namespace Richat.Filter

open Lib

/-! ### What the requests ask for -/

/-- The public keys of a field of a request. -/
def keysOfItems (items : List Bytes) : Finset Pubkey := (items.filterMap fun item => (tryConv item).toOption).toFinset

/-- A request adds keys to the set of the client, and removes keys from it. -/
def SubscribeAccountsRequest.applyTo (message : SubscribeAccountsRequest) (set : Finset Pubkey) : Finset Pubkey :=
  (set ∪ keysOfItems message.add) \ keysOfItems message.remove

/-- The set of a client after these requests. -/
def currentSet (messages : List SubscribeAccountsRequest) : Finset Pubkey :=
  messages.foldl (fun set message => message.applyTo set) ∅

theorem currentSet_snoc (messages : List SubscribeAccountsRequest) (message : SubscribeAccountsRequest) :
    currentSet (messages ++ [message]) = message.applyTo (currentSet messages) := by
  simp [currentSet]

def AccountsEvent.accepted? : AccountsEvent → Option SubscribeAccountsRequest
  | accepted message => some message
  | _ => none

def AccountsEvent.isRejected : AccountsEvent → Bool
  | rejected _ => true
  | _ => false

/-- The requests that were accepted. -/
def acceptedRequests (events : List AccountsEvent) : List SubscribeAccountsRequest :=
  events.filterMap (·.accepted?)

@[simp] theorem acceptedRequests_append (l l' : List AccountsEvent) :
    acceptedRequests (l ++ l') = acceptedRequests l ++ acceptedRequests l' := List.filterMap_append

/-! ### The keys of the server -/

section

variable {items : List Bytes} {pubkeys pubkeys' : List Pubkey} {message : SubscribeAccountsRequest}

theorem keysOfItems_cons {item : Bytes} {pubkey : Pubkey} (h : tryConv item = .ok pubkey) :
    keysOfItems (item :: items) = insert pubkey (keysOfItems items) := by
  simp [keysOfItems, h, Except.toOption]

theorem applyKeys_insert (hnodup : pubkeys.Nodup)
    (h : applyKeys (fun pubkeys pubkey => pubkeys.insert pubkey) items pubkeys = (pubkeys', .ok ())) :
    pubkeys'.Nodup ∧ pubkeys'.toFinset = pubkeys.toFinset ∪ keysOfItems items := by
  induction items generalizing pubkeys with
  | nil =>
    cases h
    exact ⟨hnodup, by simp [keysOfItems]⟩
  | cons item items ih =>
    unfold applyKeys at h
    split at h
    · cases h
    · rename_i pubkey hconv
      obtain ⟨hnodup', heq⟩ := ih hnodup.insert h
      refine ⟨hnodup', ?_⟩
      rw [heq, keysOfItems_cons hconv]
      ext key
      simp only [Finset.mem_union, List.mem_toFinset, List.mem_insert_iff, Finset.mem_insert]
      tauto

theorem applyKeys_erase (hnodup : pubkeys.Nodup)
    (h : applyKeys (fun pubkeys pubkey => pubkeys.erase pubkey) items pubkeys = (pubkeys', .ok ())) :
    pubkeys'.Nodup ∧ pubkeys'.toFinset = pubkeys.toFinset \ keysOfItems items := by
  induction items generalizing pubkeys with
  | nil =>
    cases h
    exact ⟨hnodup, by simp [keysOfItems]⟩
  | cons item items ih =>
    unfold applyKeys at h
    split at h
    · cases h
    · rename_i pubkey hconv
      obtain ⟨hnodup', heq⟩ := ih (hnodup.erase pubkey) h
      refine ⟨hnodup', ?_⟩
      rw [heq, keysOfItems_cons hconv]
      ext key
      simp only [Finset.mem_sdiff, List.mem_toFinset, hnodup.mem_erase_iff, Finset.mem_insert]
      tauto

/-- A request whose keys have the right length has its effect on the set. -/
theorem updateKeys_ok (hnodup : pubkeys.Nodup) (h : updateKeys message pubkeys = (pubkeys', .ok ())) :
    pubkeys'.Nodup ∧ pubkeys'.toFinset = message.applyTo pubkeys.toFinset := by
  unfold updateKeys at h
  split at h
  · cases h
  · rename_i added hadded
    obtain ⟨hnodup₁, hadd⟩ := applyKeys_insert hnodup hadded
    obtain ⟨hnodup₂, hremove⟩ := applyKeys_erase hnodup₁ h
    exact ⟨hnodup₂, by rw [hremove, hadd]; rfl⟩

end

/-! ### The filter -/

section

variable {env : AccountsEnv} {message : SubscribeAccountsRequest} {pubkeys pubkeys' : List Pubkey}
  {filter : ClientFilter} {state state' : SubscribeClientState ClientFilter}

/-- The filter is one of accounts, with the keys. -/
def ClientFilter.OfKeys (filter : ClientFilter) (keys : Finset Pubkey) : Prop :=
  filter.accounts = [("", ⟨keys, ∅, none, none⟩)]

theorem getFilter_ok (hnodup : pubkeys.Nodup) (h : getFilter env message pubkeys = .ok (pubkeys', .ok filter)) :
    pubkeys'.Nodup ∧ pubkeys'.toFinset = message.applyTo pubkeys.toFinset ∧ filter.OfKeys pubkeys'.toFinset := by
  unfold getFilter at h
  split at h
  · cases h
  · rename_i updated hupdate
    dsimp only at h
    split at h
    · cases h
    · cases h
    · split at h
      · cases h
      · rename_i new hnew
        cases h
        obtain ⟨hnodup', hset⟩ := updateKeys_ok hnodup hupdate
        exact ⟨hnodup', hset, by cases hnew; rfl⟩

/-- What the filter takes: no key means every key. -/
theorem getUpdatesRef_ofKeys {keys : Finset Pubkey} (h : filter.OfKeys keys) {account : MessageAccount}
    (hbuffer : (Message.account account).InBuffer) (commitment : CommitmentLevel) :
    filter.getUpdatesRef env.validAccountData (.account account) commitment =
      .ok (if keys = ∅ ∨ account.pubkey ∈ keys then [⟨[""], .account account filter.accountsDataSlices⟩]
        else []) := by
  simp only [ClientFilter.getUpdatesRef, FilterAccounts.getUpdate, indexData_eq hbuffer]
  rw [show filter.accounts = _ from h]
  by_cases hkeys : keys = ∅
  · simp [FilterAccounts.names, FilterAccountsInner.takes, hkeys, updateOf, bind, Except.bind, pure, Except.pure]
  · by_cases hmem : account.pubkey ∈ keys
    · simp [FilterAccounts.names, FilterAccountsInner.takes, hmem, updateOf, bind, Except.bind, pure, Except.pure]
    · simp [FilterAccounts.names, FilterAccountsInner.takes, hkeys, hmem, updateOf, bind, Except.bind, pure,
        Except.pure]

/-- A request that is accepted puts its filter in place. -/
theorem setFilter_ok {view : ChannelView} {fromSlot : Option Slot}
    (h : setFilter view fromSlot filter state = .ok state') :
    state'.filter = some filter ∧ state'.finished = state.finished ∧
      (state'.replayFromSlot = state.replayFromSlot ∨ state'.replayFromSlot = fromSlot) := by
  unfold setFilter at h
  dsimp only at h
  split at h
  · cases h
  split at h
  · cases h
  split at h
  · cases h
  split at h
  · cases h
    exact ⟨rfl, rfl, .inl rfl⟩
  · split at h <;> cases h
    exact ⟨rfl, rfl, .inr rfl⟩

end

/-! ### Runs -/

namespace AccountsStream

variable {env : AccountsEnv} {s s' : AccountsStream} {events out : List AccountsEvent}

/-- The filter in place is made of the set that the requests ask for. -/
structure Inv (s : AccountsStream) (events : List AccountsEvent) : Prop where
  nodup : s.state.finished = false → s.pubkeys.Nodup
  keys : s.state.finished = false → s.pubkeys.toFinset = currentSet (acceptedRequests events)
  filter : s.state.finished = false → ∀ filter, s.state.filter = some filter →
    filter.OfKeys (currentSet (acceptedRequests events))
  isSome : acceptedRequests events ≠ [] → s.state.filter.isSome
  fromSlot : ∀ slot, s.state.replayFromSlot = some slot → slot < 2 ^ 64
  rejected : (∃ e ∈ events, e.isRejected) → s.state.finished

/-- What a step can do. -/
inductive Move (env : AccountsEnv) (s : AccountsStream) : AccountsStream → List AccountsEvent → Prop where
  | pong (id : Int32) : Move env s s [.pong id]
  | accept (message : SubscribeAccountsRequest) (view : ChannelView) (pubkeys : List Pubkey)
      (filter : ClientFilter) (state : SubscribeClientState ClientFilter)
      (hfilter : getFilter env message s.pubkeys = .ok (pubkeys, .ok filter))
      (hset : setFilter view (message.fromSlot.map UInt64.toNat) filter s.state = .ok state) :
      Move env s { s with pubkeys, state } [.accepted message]
  | reject (pubkeys : List Pubkey) (error : Status) :
      Move env s ⟨pubkeys, { s.state with finished := true }, false⟩ [.rejected error]
  | requestsEnd : Move env s { s with reading := false } []
  | finish : Move env s { s with state := { s.state with finished := true } } []
  | take (message : Message) (updates : List FilteredUpdate)
      (hupdates : getUpdates env s.state message = .ok updates) : Move env s s [.taken message updates]

theorem move_of_step {action : AccountsAction} (h : step env s action = .ok (s', out)) : Move env s s' out := by
  cases action with
  | request message view =>
    simp only [step] at h
    split at h
    · split at h
      · cases h
        exact .pong _
      · split at h
        · cases h
        · rename_i pubkeys newFilter hfilter
          split at h
          · rename_i state hset
            cases h
            obtain ⟨filter, rfl, hset⟩ : ∃ filter, newFilter = .ok filter ∧
                setFilter view (message.fromSlot.map UInt64.toNat) filter s.state = .ok state := by
              cases newFilter with
              | error error => cases hset
              | ok filter => exact ⟨filter, rfl, hset⟩
            exact .accept message view pubkeys filter state hfilter hset
          · cases h
            exact .reject pubkeys _
    · cases h
  | requestsEnd =>
    cases h
    exact .requestsEnd
  | finish =>
    cases h
    exact .finish
  | take message =>
    simp only [step] at h
    split at h
    · cases h
    · rename_i updates hupdates
      cases h
      exact .take message updates hupdates

namespace Inv

theorem new : Inv .new [] where
  nodup _ := List.nodup_nil
  keys _ := rfl
  filter _ filter hfilter := by cases hfilter
  isSome hne := absurd rfl hne
  fromSlot slot hslot := by cases hslot
  rejected h := by simp at h

/-- A step that accepts and rejects nothing, and leaves the set and the filter. -/
theorem frame (h : Inv s events) (hpubkeys : s'.pubkeys = s.pubkeys) (hfilter : s'.state.filter = s.state.filter)
    (hslot : s'.state.replayFromSlot = s.state.replayFromSlot)
    (hfinished : s'.state.finished = false → s.state.finished = false)
    (haccepted : acceptedRequests out = []) (hrejected : ∀ e ∈ out, e.isRejected = false) :
    Inv s' (events ++ out) := by
  refine ⟨fun hnot => hpubkeys ▸ h.nodup (hfinished hnot), fun hnot => ?_, fun hnot filter hf => ?_, ?_, ?_, ?_⟩
  · rw [hpubkeys, acceptedRequests_append, haccepted, List.append_nil]
    exact h.keys (hfinished hnot)
  · rw [acceptedRequests_append, haccepted, List.append_nil]
    exact h.filter (hfinished hnot) filter (hfilter ▸ hf)
  · rw [acceptedRequests_append, haccepted, List.append_nil, hfilter]
    exact h.isSome
  · rw [hslot]
    exact h.fromSlot
  · rintro ⟨e, he, hrej⟩
    rcases List.mem_append.mp he with he | he
    · by_contra hnot
      have := h.rejected ⟨e, he, hrej⟩
      rw [hfinished (Bool.eq_false_of_not_eq_true hnot)] at this
      cases this
    · rw [hrejected e he] at hrej
      cases hrej

theorem move (h : Inv s events) (hmove : Move env s s' out) : Inv s' (events ++ out) := by
  cases hmove with
  | pong _ => exact h.frame rfl rfl rfl (fun hnot => hnot) rfl (by simp [AccountsEvent.isRejected])
  | accept message view pubkeys filter state hfilter hset =>
    obtain ⟨hsome, hfinished, hslot⟩ := setFilter_ok hset
    have haccepted : acceptedRequests (events ++ [.accepted message]) = acceptedRequests events ++ [message] := by
      rw [acceptedRequests_append]
      rfl
    have hkeys : state.finished = false → pubkeys.Nodup ∧
        pubkeys.toFinset = currentSet (acceptedRequests (events ++ [.accepted message])) ∧
        filter.OfKeys pubkeys.toFinset := by
      intro hnot
      rw [hfinished] at hnot
      obtain ⟨hnodup, hset', hof⟩ := getFilter_ok (h.nodup hnot) hfilter
      refine ⟨hnodup, ?_, hof⟩
      rw [hset', haccepted, currentSet_snoc, h.keys hnot]
    refine ⟨fun hnot => (hkeys hnot).1, fun hnot => (hkeys hnot).2.1, fun hnot filter' hf => ?_, fun _ => ?_,
      ?_, ?_⟩
    · obtain rfl := Option.some.inj (hsome.symm.trans hf)
      have hof := (hkeys hnot).2.2
      rwa [(hkeys hnot).2.1] at hof
    · rw [hsome]
      rfl
    · intro slot hslot'
      dsimp only at hslot'
      rcases hslot with hslot | hslot <;> rw [hslot] at hslot'
      · exact h.fromSlot slot hslot'
      · obtain ⟨fromSlot, -, rfl⟩ := Option.map_eq_some_iff.mp hslot'
        exact fromSlot.toNat_lt
    · rintro ⟨e, he, hrej⟩
      rw [hfinished]
      refine h.rejected ⟨e, ?_, hrej⟩
      rcases List.mem_append.mp he with he | he
      · exact he
      · rw [List.mem_singleton.mp he] at hrej
        cases hrej
  | reject pubkeys error =>
    refine ⟨by simp, by simp, by simp, ?_, h.fromSlot, fun _ => rfl⟩
    rw [acceptedRequests_append]
    simpa [acceptedRequests, AccountsEvent.accepted?] using h.isSome
  | requestsEnd => exact h.frame rfl rfl rfl (fun hnot => hnot) rfl (by simp)
  | finish => exact h.frame rfl rfl rfl (by simp) rfl (by simp)
  | take message updates hupdates =>
    exact h.frame rfl rfl rfl (fun hnot => hnot) rfl (by simp [AccountsEvent.isRejected])

end Inv

theorem inv_run {actions : List AccountsAction} (h : run (step env) .new actions = .ok (s, events)) :
    Inv s events :=
  run_induction (P := fun _ s events => Inv s events) .new
    (fun _ _ _ _ _ _ _ hinv hstep => hinv.move (move_of_step hstep)) h

/-! ### What is delivered -/

/-- A worker that takes the account has an update of it for the client. -/
def Delivers (env : AccountsEnv) (state : SubscribeClientState ClientFilter) (account : MessageAccount) : Prop :=
  ∃ updates, getUpdates env state (.account account) = .ok updates ∧
    ∃ update ∈ updates, ∃ slices, update.filteredUpdate = .account account slices

/-- The accounts that a worker offers to the filter: none before the slot that the client has asked for. -/
def Offers (state : SubscribeClientState ClientFilter) (account : MessageAccount) : Prop :=
  (Message.account account).InBuffer ∧ ∀ slot, state.replayFromSlot = some slot → slot ≤ account.slot.toNat

theorem not_delivers_of_finished {account : MessageAccount} (h : s.state.finished) :
    ¬Delivers env s.state account := by
  rintro ⟨updates, hupdates, update, hmem, -⟩
  rw [getUpdates, if_pos h] at hupdates
  cases hupdates
  cases hmem

theorem Inv.delivers_iff {account : MessageAccount} (h : Inv s events) (haccepted : acceptedRequests events ≠ [])
    (hnot : s.state.finished = false) (hoffers : Offers s.state account) : Delivers env s.state account ↔
      currentSet (acceptedRequests events) = ∅ ∨ account.pubkey ∈ currentSet (acceptedRequests events) := by
  obtain ⟨filter, hfilter⟩ := Option.isSome_iff_exists.mp (h.isSome haccepted)
  have hslot : s.state.replayFromSlot.any ((Message.account account).slotOf.toNat < ·) = false := by
    cases hfrom : s.state.replayFromSlot with
    | none => rfl
    | some slot => exact decide_eq_false (not_lt.mpr (hoffers.2 slot hfrom))
  have hupdates : getUpdates env s.state (.account account) =
      filter.getUpdatesRef env.validAccountData (.account account) s.state.commitment := by
    simp only [getUpdates, hnot, hfilter, hslot]
    rfl
  rw [getUpdatesRef_ofKeys (h.filter hnot filter hfilter) hoffers.1] at hupdates
  unfold Delivers
  rw [hupdates]
  constructor
  · rintro ⟨updates, heq, update, hmem, -⟩
    cases heq
    split at hmem
    · assumption
    · cases hmem
  · intro htakes
    refine ⟨_, rfl, ?_⟩
    rw [if_pos htakes]
    exact ⟨_, List.mem_singleton.mpr rfl, _, rfl⟩

/-- An account that every client is offered whose stream begins at the slot or before. -/
def accountAt (slot : UInt64) : MessageAccount := .limited { smallAccount with slot }

theorem Inv.exists_offers (h : Inv s events) : ∃ account, Offers s.state account := by
  have hbuffer : ∀ slot, (Message.account (accountAt slot)).InBuffer := fun slot =>
    ⟨Nat.zero_le _, le_refl 2⟩
  cases hfrom : s.state.replayFromSlot with
  | none => exact ⟨accountAt 0, hbuffer 0, by simp [hfrom]⟩
  | some slot =>
    refine ⟨accountAt (UInt64.ofNat slot), hbuffer _, fun slot' hslot' => ?_⟩
    obtain rfl := Option.some.inj (hfrom.symm.trans hslot')
    have hlt := h.fromSlot slot hfrom
    rw [show (accountAt (UInt64.ofNat slot)).slot = UInt64.ofNat slot from rfl, UInt64.toNat_ofNat_of_lt' hlt]

/-- **The accounts of a client.** While the stream goes on, what is delivered is the set that the requests ask
for, exactly when this set is not empty. A rejected request leaves everything but the end of the stream. -/
theorem subscribe_accounts_iff {actions : List AccountsAction}
    (h : run (step env) .new actions = .ok (s, events)) :
    (acceptedRequests events ≠ [] → s.state.finished = false →
      ((∀ account, Offers s.state account →
        (Delivers env s.state account ↔ account.pubkey ∈ currentSet (acceptedRequests events))) ↔
          currentSet (acceptedRequests events) ≠ ∅)) ∧
      (∀ message view s' error, step env s (.request message view) = .ok (s', [.rejected error]) →
        s'.state = { s.state with finished := true } ∧ s'.reading = false) ∧
      ((∃ e ∈ events, e.isRejected) → ∀ account, ¬Delivers env s.state account) := by
  have hinv := inv_run h
  refine ⟨fun haccepted hnot => ⟨fun hexact hempty => ?_, fun hne account hoffers => ?_⟩, ?_,
    fun hrejected account => not_delivers_of_finished (hinv.rejected hrejected)⟩
  · obtain ⟨account, hoffers⟩ := hinv.exists_offers
    have hmem := (hexact account hoffers).mp ((hinv.delivers_iff haccepted hnot hoffers).mpr (.inl hempty))
    rw [hempty] at hmem
    cases hmem
  · rw [hinv.delivers_iff haccepted hnot hoffers]
    exact ⟨fun htakes => htakes.resolve_left hne, .inr⟩
  · intro message view s' error hstep
    have hmove := move_of_step hstep
    generalize hout : [AccountsEvent.rejected error] = out at hmove
    cases hmove with
    | reject pubkeys error => exact ⟨rfl, rfl⟩
    | _ => cases hout

/-- A server without limits, and a channel whose messages come from memory. -/
def openEnv : AccountsEnv := ⟨{}, fun _ => "", fun _ => false⟩

def memoryView : ChannelView := ⟨fun _ => 0, fun _ _ => .ok (.memory 1), fun _ => 0, fun _ => true, .ok ()⟩

/-- A request with the keys that consist of one byte each. -/
def keysRequest (add remove : List UInt8) : SubscribeAccountsRequest where
  ping := none
  fromSlot := none
  filter := ""
  add := add.map (List.replicate 32)
  remove := remove.map (List.replicate 32)

/-- The run of the requests, one after the other. -/
def requestsRun (messages : List SubscribeAccountsRequest) :
    Except AccountsHalt (AccountsStream × List AccountsEvent) :=
  run (step openEnv) .new (messages.map (.request · memoryView))

/-- Two keys are added, and one of them is removed. -/
theorem subscribe_accounts_iff_removed : ∃ s events,
    requestsRun [keysRequest [0, 1] [], keysRequest [] [1]] = .ok (s, events) ∧
      (acceptedRequests events ≠ [] → s.state.finished = false →
        ((∀ account, Offers s.state account →
          (Delivers openEnv s.state account ↔ account.pubkey ∈ currentSet (acceptedRequests events))) ↔
            currentSet (acceptedRequests events) ≠ ∅)) ∧
      acceptedRequests events ≠ [] ∧ s.state.finished = false ∧
        currentSet (acceptedRequests events) = {⟨List.replicate 32 0, List.length_replicate⟩} := by
  obtain ⟨s, events, h, hresult⟩ := exists_of_returns
    (p := fun s events => !s.state.finished && !(acceptedRequests events).isEmpty &&
      decide (currentSet (acceptedRequests events) = {⟨List.replicate 32 0, List.length_replicate⟩}))
    (x := requestsRun [keysRequest [0, 1] [], keysRequest [] [1]]) (by decide +kernel)
  simp only [Bool.and_eq_true, Bool.not_eq_true', List.isEmpty_eq_false_iff, decide_eq_true_eq] at hresult
  exact ⟨s, events, h, (subscribe_accounts_iff h).1, hresult.1.2, hresult.1.1, hresult.2⟩

/-- The only key is removed again: the request is accepted, and an account is delivered that is not in the set. -/
theorem removed_all_delivers : ∃ s events,
    requestsRun [keysRequest [1] [], keysRequest [] [1]] = .ok (s, events) ∧
      (acceptedRequests events).length = 2 ∧ currentSet (acceptedRequests events) = ∅ ∧
      Offers s.state (accountAt 0) ∧ Delivers openEnv s.state (accountAt 0) := by
  refine ⟨_, _, rfl, rfl, by decide +kernel, ⟨⟨Nat.zero_le _, le_refl 2⟩, fun slot hslot => ?_⟩, ?_⟩
  · cases hslot
  · exact ⟨_, rfl, _, List.mem_singleton.mpr rfl, _, rfl⟩

end AccountsStream

end Richat.Filter
