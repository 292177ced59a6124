import Richat.Pubsub.TrackerSpec
import Richat.Pubsub.WorkerStart

/-!
# Signature subscriptions

A subscription to a signature is answered at once from the cache, or by the transaction when the worker takes it from
the stream of the commitment. The cache is filled from the processed stream only, so a subscription can come after
the transaction was taken from the confirmed stream and before the status of its slot was taken from the processed
one: it then waits for a message that was already there. `Covered` excludes this, and `NotMissed` is the invariant.
-/

namespace Richat

open Lib

/-! ### What stays of the subscriptions -/

namespace Subscriptions

variable {s s' : Subscriptions} {id : SubscriptionId} {client : ClientId}

/-- The subscriptions of `s'` are subscriptions of `s`. -/
def Keeps (s s' : Subscriptions) : Prop :=
  ∀ id sub', s'.subscriptions.get? id = some sub' →
    ∃ sub, s.subscriptions.get? id = some sub ∧ sub'.id = sub.id ∧ sub'.config = sub.config

theorem Keeps.refl (s : Subscriptions) : Keeps s s := fun _ sub h => ⟨sub, h, rfl, rfl⟩

theorem Keeps.of_eq (h : s'.subscriptions = s.subscriptions) : Keeps s s' := by
  intro id sub hsub
  exact ⟨sub, h ▸ hsub, rfl, rfl⟩

theorem Keeps.trans {s'' : Subscriptions} (h : Keeps s s') (h' : Keeps s' s'') : Keeps s s'' := by
  intro id sub'' hsub''
  obtain ⟨sub', hsub', hid', hconfig'⟩ := h' id sub'' hsub''
  obtain ⟨sub, hsub, hid, hconfig⟩ := h id sub' hsub'
  exact ⟨sub, hsub, hid'.trans hid, hconfig'.trans hconfig⟩

theorem keeps_dropSubscription {clients : IntSet} (h : s.dropSubscription id = .ok (s', clients)) :
    Keeps s s' := by
  unfold dropSubscription at h
  split at h
  · cases h
  · split at h
    · cases h
    · dsimp only at h
      split at h
      · cases h
      · cases h
        intro j sub hsub
        simp only [SortedMap.get?_erase] at hsub
        split at hsub
        · cases hsub
        · exact ⟨sub, hsub, rfl, rfl⟩

/-- The clients of a subscription change. -/
theorem keeps_setClients {sub : SubscriptionInfo} (hsub : s.subscriptions.get? id = some sub) (clients : IntSet)
    (h : s'.subscriptions = s.subscriptions.insert id { sub with clients }) : Keeps s s' := by
  intro j sub' hsub'
  rw [h, SortedMap.get?_insert] at hsub'
  split at hsub'
  · rename_i hj
    cases hsub'
    exact ⟨sub, hj ▸ hsub, rfl, rfl⟩
  · exact ⟨sub', hsub', rfl, rfl⟩

theorem keeps_removeClientSubscription (h : s.removeClientSubscription id client = .ok s') : Keeps s s' := by
  unfold removeClientSubscription at h
  split at h
  · cases h
  · rename_i sub hsub
    split at h
    · cases h
    · dsimp only at h
      have hclients : ∀ t : Subscriptions, t.subscriptions =
          s.subscriptions.insert id { sub with clients := sub.clients.erase client } → Keeps s t :=
        fun t => keeps_setClients hsub (sub.clients.erase client)
      split at h
      · split at h
        · cases h
        · rename_i s₁ _ hdrop
          cases h
          exact (hclients _ rfl).trans (keeps_dropSubscription hdrop)
      · cases h
        exact hclients _ rfl

theorem keeps_removeClientSubscriptions {ids : List SubscriptionId} : ∀ {s : Subscriptions},
    removeClientSubscriptions client ids s = .ok s' → Keeps s s' := by
  induction ids with
  | nil =>
    intro s h
    cases h
    exact .refl _
  | cons id ids ih =>
    intro s h
    unfold removeClientSubscriptions at h
    split at h
    · cases h
    · rename_i s₁ hone
      exact (keeps_removeClientSubscription hone).trans (ih h)

theorem keeps_removeClient (h : s.removeClient client = .ok s') : Keeps s s' := by
  unfold removeClient at h
  split at h
  · cases h
    exact .refl s
  · refine Keeps.trans ?_ (keeps_removeClientSubscriptions h)
    exact .of_eq rfl

theorem keeps_removeSubscriptionClients {clients : List ClientId} : ∀ {s : Subscriptions},
    removeSubscriptionClients id clients s = .ok s' → Keeps s s' := by
  induction clients with
  | nil =>
    intro s h
    cases h
    exact .refl _
  | cons client clients ih =>
    intro s h
    unfold removeSubscriptionClients at h
    split at h
    · cases h
    · split at h
      · cases h
      · refine Keeps.trans ?_ (ih h)
        exact .of_eq rfl

theorem keeps_removeSubscription (h : s.removeSubscription id = .ok s') : Keeps s s' := by
  unfold removeSubscription at h
  split at h
  · cases h
  · rename_i s₁ clients hdrop
    exact (keeps_dropSubscription hdrop).trans (keeps_removeSubscriptionClients h)

theorem keeps_unsubscribe {removed : Bool} (h : s.unsubscribe client id = .ok (s', removed)) : Keeps s s' := by
  unfold unsubscribe at h
  split at h
  · cases h
    exact .refl s
  · split at h
    · dsimp only at h
      split at h
      · cases h
      · rename_i s₁ hone
        cases h
        refine Keeps.trans ?_ (keeps_removeClientSubscription hone)
        exact .of_eq rfl
    · cases h
      exact .refl s

end Subscriptions

namespace Tracker

open Subscriptions

variable {hash : SubscribeConfig → ℕ} {encode : SubscriptionId → CachedSignature → String}
  {t t' : Tracker} {events : List TrackerEvent} {client : ClientId} {id : SubscriptionId}

theorem keeps_removeClients {clients : List ClientId} {s' : Subscriptions} : ∀ {s : Subscriptions},
    removeClients clients s = .ok s' → Keeps s s' := by
  induction clients with
  | nil =>
    intro s h
    cases h
    exact .refl _
  | cons client clients ih =>
    intro s h
    unfold removeClients at h
    split at h
    · cases h
    · rename_i s₁ hone
      exact (keeps_removeClient hone).trans (ih h)

theorem sendAll_subscriptions {notification : RpcNotification} {clients : List ClientId} :
    ∀ {t t' : Tracker} {events : List TrackerEvent}, sendAll notification clients t = .ok (t', events) →
      t'.subscriptions = t.subscriptions := by
  induction clients with
  | nil =>
    intro t t' events h
    cases h
    rfl
  | cons client clients ih =>
    intro t t' events h
    unfold sendAll at h
    split at h
    · cases h
    · dsimp only at h
      split at h
      · cases h
      · rename_i t₁ events₁ hrest
        cases h
        exact (ih hrest).trans rfl

theorem keeps_deliver {method : SubscribeMethod} {isFinal : Bool} {json : String}
    (h : t.deliver id method isFinal json = .ok (t', events)) : Keeps t.subscriptions t'.subscriptions := by
  unfold deliver at h
  split at h
  · cases h
    exact .refl _
  · dsimp only at h
    split at h
    · cases h
    · rename_i t₁ events₁ hsend
      have hsame := sendAll_subscriptions hsend
      have hsame : t₁.subscriptions = t.subscriptions := hsame
      split at h
      · cases h
      · rename_i s₁ hfinal
        split at h
        · cases h
        · rename_i s₂ hremove
          cases h
          refine Keeps.trans ?_ (keeps_removeClients hremove)
          split at hfinal
          · rw [← hsame]
            exact keeps_removeSubscription hfinal
          · cases hfinal
            rw [hsame]
            exact .refl _

/-- A subscription after a subscribe: it was there, or it is a new one, which the cache has no answer for. -/
theorem subscribe_cases {config : SubscribeConfig} {signatures : CachedSignatures}
    (h : t.subscribe hash encode client config signatures = .ok (t', id, events)) :
    ∀ j sub', t'.subscriptions.subscriptions.get? j = some sub' →
      (∃ sub, t.subscriptions.subscriptions.get? j = some sub ∧ sub'.id = sub.id ∧ sub'.config = sub.config) ∨
      (sub'.id = j ∧ sub'.config = config ∧
        ∀ signature level, config = .signature signature level → signatures.get signature level = none) := by
  unfold subscribe at h
  dsimp only at h
  split at h
  · cases h
    exact fun j sub hsub => .inl ⟨sub, hsub, rfl, rfl⟩
  · split at h
    · split at h
      · cases h
      · rename_i id sub hsub
        cases h
        exact fun j sub' hsub' => .inl (keeps_setClients (s := t.subscriptions) hsub _ rfl j sub' hsub')
    · split at h
      · split at h
        · cases h
          exact fun j sub hsub => .inl ⟨sub, hsub, rfl, rfl⟩
        · split at h
          · cases h
          · rename_i s₁ hremove
            cases h
            exact fun j sub hsub => .inl (keeps_removeClient hremove j sub hsub)
      · rename_i hnone
        cases h
        intro j sub' hsub'
        simp only [SortedMap.get?_insert] at hsub'
        split at hsub'
        · rename_i hj
          cases hsub'
          refine .inr ⟨hj.symm, rfl, ?_⟩
          rintro signature level rfl
          exact hnone
        · exact .inl ⟨sub', hsub', rfl, rfl⟩

/-- What a subscribe of a client that is there does: it answers, or the client waits. -/
theorem subscribe_outcome {config : SubscribeConfig} {signatures : CachedSignatures} {info : ClientInfo}
    (h : t.subscribe hash encode client config signatures = .ok (t', id, events))
    (hclient : t.subscriptions.clients.get? client = some info) :
    (∃ e, events = [e] ∧ e.client = client ∧ e.notification.isFinal = true) ∨
    (events = [] ∧ ∃ sub, t'.subscriptions.subscriptions.get? id = some sub ∧ sub.clients.contains client ∧
      (sub.config = config ∨ ∃ old, t.subscriptions.subscriptionsByConfig.get? (hash config) = some id ∧
        t.subscriptions.subscriptions.get? id = some old ∧ sub.config = old.config)) := by
  unfold subscribe at h
  simp only [hclient] at h
  split at h
  · rename_i id₁ hby
    split at h
    · cases h
    · rename_i old hold
      cases h
      refine .inr ⟨rfl, _, SortedMap.get?_insert_self .., ?_, .inr ⟨old, hby, hold, rfl⟩⟩
      simp
  · split at h
    · split at h
      · cases h
        exact .inl ⟨_, rfl, rfl, rfl⟩
      · split at h
        · cases h
        · cases h
          exact .inl ⟨_, rfl, rfl, rfl⟩
    · cases h
      refine .inr ⟨rfl, _, SortedMap.get?_insert_self .., ?_, .inl rfl⟩
      simp

/-- A subscription after a step: it was there, or a subscribe has made it. -/
theorem step_subscription {a : TrackerAction} (h : step hash encode t a = .ok (t', events)) :
    ∀ j sub', t'.subscriptions.subscriptions.get? j = some sub' →
      (∃ sub, t.subscriptions.subscriptions.get? j = some sub ∧ sub'.id = sub.id ∧ sub'.config = sub.config) ∨
      ∃ client config signatures, a = .subscribe client config signatures ∧ sub'.id = j ∧ sub'.config = config ∧
        ∀ signature level, config = .signature signature level → signatures.get signature level = none := by
  cases a with
  | register client maxCount =>
    rw [step, register] at h
    cases hremove : t.subscriptions.removeClient client with
    | error e =>
      rw [hremove] at h
      cases h
    | ok s =>
      rw [hremove] at h
      cases h
      exact fun j sub' hsub' => .inl (keeps_removeClient hremove j sub' hsub')
  | subscribe client config signatures =>
    rw [step] at h
    cases hsubscribe : t.subscribe hash encode client config signatures with
    | error e =>
      rw [hsubscribe] at h
      cases h
    | ok r =>
      rw [hsubscribe] at h
      cases h
      intro j sub' hsub'
      refine (subscribe_cases hsubscribe j sub' hsub').imp id ?_
      rintro ⟨hid, hconfig, hnone⟩
      exact ⟨client, config, signatures, rfl, hid, hconfig, hnone⟩
  | unsubscribe client id =>
    rw [step] at h
    cases hunsubscribe : t.subscriptions.unsubscribe client id with
    | error e =>
      rw [hunsubscribe] at h
      cases h
    | ok r =>
      rw [hunsubscribe] at h
      cases h
      exact fun j sub' hsub' => .inl (keeps_unsubscribe hunsubscribe j sub' hsub')
  | remove client =>
    rw [step] at h
    cases hremove : t.subscriptions.removeClient client with
    | error e =>
      rw [hremove] at h
      cases h
    | ok s =>
      rw [hremove] at h
      cases h
      exact fun j sub' hsub' => .inl (keeps_removeClient hremove j sub' hsub')
  | deliver id method isFinal json =>
    exact fun j sub' hsub' => .inl (keeps_deliver h j sub' hsub')
  | recv channel =>
    cases h
    exact fun j sub' hsub' => .inl ⟨sub', hsub', rfl, rfl⟩
  | close channel =>
    cases h
    exact fun j sub' hsub' => .inl ⟨sub', hsub', rfl, rfl⟩

/-- A final notification ends its subscription. -/
theorem deliver_final (h : Inv hash t.subscriptions) {method : SubscribeMethod} {json : String}
    (hdeliver : t.deliver id method true json = .ok (t', events)) :
    t'.subscriptions.subscriptions.get? id = none := by
  rcases deliver_ok h id method true json with
    ⟨hnone, heq⟩ | ⟨sub, channels, events', s, -, -, heq, hinv, hchanges⟩
  · rw [heq] at hdeliver
    cases hdeliver
    exact hnone
  · rw [heq] at hdeliver
    cases hdeliver
    cases hget : s.subscriptions.get? id with
    | none => rfl
    | some sub' =>
      obtain ⟨client, hclient⟩ := hinv.occupied id sub' hget
      have hlisted := (hinv.linked client id).mpr ⟨sub', hget, hclient⟩
      exact absurd ⟨rfl, rfl⟩ ((hchanges.listed client id).mp hlisted).2.1

/-- A client loses a subscription with its final notification, with a notification that its queue has no place
for, or by a request of its own. -/
theorem leaves (h : Inv hash t.subscriptions) {a : TrackerAction}
    (hstep : step hash encode t a = .ok (t', events)) (hlists : t.subscriptions.Lists id client)
    (hnot : ¬ t'.subscriptions.Lists id client) :
    (∃ e ∈ events, e.client = client ∧
      (e.notification.subscriptionId = id ∧ e.notification.isFinal = true ∨ e.sent = false)) ∨
    a = .unsubscribe client id ∨ a = .remove client ∨ ∃ maxCount, a = .register client maxCount := by
  have hlisted := (h.linked client id).mpr hlists
  obtain ⟨t₁, events₁, hstep₁, hinv⟩ : ∃ t₁ events₁, step hash encode t a = .ok (t₁, events₁) ∧
      Inv hash t₁.subscriptions := step_ok h a
  obtain ⟨rfl, rfl⟩ := Prod.ext_iff.mp (Except.ok.inj (hstep₁.symm.trans hstep))
  rw [← hinv.linked] at hnot
  cases a with
  | register c maxCount =>
    right
    by_cases hc : client = c
    · exact .inr (.inr ⟨maxCount, by rw [hc]⟩)
    · obtain ⟨s, hremove, -, hchanges⟩ := removeClient_ok h c
      rw [step, register, hremove] at hstep
      cases hstep
      obtain ⟨info, hget, hid⟩ := (hchanges.listed client id).mpr ⟨hlisted, hc⟩
      exact absurd ⟨info, by rw [← hget]; exact SortedMap.get?_insert_of_ne _ _ hc, hid⟩ hnot
  | subscribe c config signatures =>
    obtain ⟨t₂, id₂, events₂, hsubscribe, -, hsubscribed⟩ := subscribe_ok encode h c config signatures
    rw [step, hsubscribe] at hstep
    cases hstep
    cases hsubscribed with
    | gone _ _ hsame =>
      obtain rfl : t₁ = _ := hsame
      exact absurd hlisted hnot
    | added info _ _ hadds => exact absurd ((hadds.listed client id).mpr (.inl hlisted)) hnot
    | final info json sent notification _ _ _ _ _ hchanges =>
      left
      have hlost : ¬ (sent = true ∨ client ≠ c) := fun hkept =>
        hnot ((hchanges.listed client id).mpr ⟨hlisted, hkept⟩)
      rw [not_or, not_not, Bool.not_eq_true] at hlost
      exact ⟨_, List.mem_singleton_self _, hlost.2.symm, .inr hlost.1⟩
  | unsubscribe c j =>
    obtain ⟨s, removed, hunsubscribe, -, hchanges, -⟩ := unsubscribe_ok h c j
    rw [step, hunsubscribe] at hstep
    cases hstep
    have hlost : client = c ∧ id = j := by
      by_contra hkept
      exact hnot ((hchanges.listed client id).mpr ⟨hlisted, hkept⟩)
    exact .inr (.inl (by rw [hlost.1, hlost.2]))
  | remove c =>
    obtain ⟨s, hremove, -, hchanges⟩ := removeClient_ok h c
    rw [step, hremove] at hstep
    cases hstep
    have hlost : client = c := by
      by_contra hkept
      exact hnot ((hchanges.listed client id).mpr ⟨hlisted, hkept⟩)
    exact .inr (.inr (.inl (by rw [hlost])))
  | deliver j method isFinal json =>
    left
    rw [step] at hstep
    rcases deliver_ok h j method isFinal json with
      ⟨-, heq⟩ | ⟨sub, channels, events', s, hsub, hsend, heq, -, hchanges⟩
    · rw [heq] at hstep
      cases hstep
      exact absurd hlisted hnot
    · rw [heq] at hstep
      cases hstep
      by_cases hfinal : isFinal = true ∧ id = j
      · -- the client is one of those that the notification goes to
        obtain ⟨rfl, rfl⟩ := hfinal
        obtain ⟨sub', hsub', hcontains⟩ := hlists
        obtain rfl := Option.some.inj (hsub.symm.trans hsub')
        have hclients : ∀ c ∈ sub.clients.keys, ∃ info, t.subscriptions.clients.get? c = some info := by
          intro c hc
          obtain ⟨info, hget, -⟩ := (h.linked c id).mpr ⟨sub, hsub, SortedMap.contains_iff.mpr hc⟩
          exact ⟨info, hget⟩
        obtain ⟨_, events'', hsend', hmap, hnotification⟩ := sendAll_ok
          ⟨id, method, true, t.notifications.allocated⟩
          (t := { t with notifications := (t.notifications.push json).1 }) hclients
        obtain ⟨-, hsame⟩ := Prod.ext_iff.mp (Except.ok.inj (hsend.symm.trans hsend'))
        simp only at hsame
        have hmem : client ∈ events''.map (·.client) := by
          rw [hmap]
          exact SortedMap.contains_iff.mp hcontains
        obtain ⟨e, he, hclient⟩ := List.mem_map.mp hmem
        rw [← hclient]
        exact ⟨e, hsame ▸ he, rfl, .inl (by rw [hnotification e he]; exact ⟨rfl, rfl⟩)⟩
      · by_contra hno
        refine hnot ((hchanges.listed client id).mpr ⟨hlisted, hfinal, fun e he hclient => ?_⟩)
        by_contra hsent
        exact hno ⟨e, he, hclient, .inr (Bool.not_eq_true _ ▸ hsent)⟩
  | recv channel =>
    cases hstep
    exact absurd hlisted hnot
  | close channel =>
    cases hstep
    exact absurd hlisted hnot

end Tracker

/-! ### The cache and the messages it was filled from -/

/-- The last of what the messages give. -/
def lastOf {β : Type*} (f : ParsedMessage → Option β) (messages : List ParsedMessage) : Option β :=
  (messages.filterMap f).getLast?

theorem lastOf_snoc {β : Type*} (f : ParsedMessage → Option β) (messages : List ParsedMessage)
    (message : ParsedMessage) : lastOf f (messages ++ [message]) = (f message).or (lastOf f messages) := by
  unfold lastOf
  rw [List.filterMap_append, List.filterMap_cons, List.filterMap_nil]
  cases f message with
  | none => simp
  | some x => simp

/-- The slot of a transaction with the signature, and an error that can be read. -/
def transactionSlot? (txError : MessageTransaction → Option Bytes) (signature : Signature)
    (message : ParsedMessage) : Option Slot :=
  match message.message with
  | .transaction msg =>
    if msg.signature.toOption = some signature ∧ (txError msg).isSome then some msg.slot else none
  | _ => none

/-- The slot of a status of the commitment. -/
def statusSlot? (level : CommitmentLevel) (message : ParsedMessage) : Option Slot :=
  match message.message with
  | .slot msg =>
    match level, msg.status with
    | .confirmed, .slotConfirmed => some msg.slot
    | .finalized, .slotFinalized => some msg.slot
    | _, _ => none
  | _ => none

/-- The slot of the last status, `0` if there is none. -/
def lastStatus (level : CommitmentLevel) (messages : List ParsedMessage) : Slot :=
  (lastOf (statusSlot? level) messages).getD 0

namespace SignaturesCache

variable {txError : MessageTransaction → Option Bytes} {cache cache' : SignaturesCache}
  {messages out : List ParsedMessage} {message : ParsedMessage}

/-- An entry is the one of the last transaction with its signature, and a commitment is at its last status. -/
structure History (txError : MessageTransaction → Option Bytes) (cache : SignaturesCache)
    (messages : List ParsedMessage) : Prop where
  entry : ∀ signature entry, cache.signatures.lookup signature = some entry →
    lastOf (transactionSlot? txError signature) messages = some entry.slot
  last : ∀ level last, cache.last level = some last → last = lastStatus level messages

theorem History.new (signaturesMax slotsMax : ℕ) : History txError (.new signaturesMax slotsMax) [] where
  entry := by
    intro signature entry h
    cases h
  last := by
    intro level last h
    cases level <;> cases h <;> rfl

/-- A message that is no transaction for the cache, and no status that moves a commitment. -/
theorem History.skip (h : History txError cache messages)
    (hentry : ∀ signature entry, cache'.signatures.lookup signature = some entry →
      cache.signatures.lookup signature = some entry) (hlast : cache'.last = cache.last)
    (htransaction : ∀ signature, transactionSlot? txError signature message = none)
    (hstatus : ∀ level last, cache.last level = some last → statusSlot? level message = none) :
    History txError cache' (messages ++ [message]) where
  entry := by
    intro signature entry hlookup
    rw [lastOf_snoc, htransaction, Option.none_or]
    exact h.entry signature entry (hentry signature entry hlookup)
  last := by
    intro level last hl
    rw [hlast] at hl
    rw [lastStatus, lastOf_snoc, hstatus level last hl, Option.none_or]
    exact h.last level last hl

theorem History.status (h : History txError cache messages) {msg : MessageSlot}
    (hmsg : message.message = .slot msg) (hentry : cache'.signatures = cache.signatures)
    (hlast : ∀ level last, cache'.last level = some last →
      statusSlot? level message = some last ∨
        statusSlot? level message = none ∧ cache.last level = some last) :
    History txError cache' (messages ++ [message]) where
  entry := by
    intro signature entry hlookup
    rw [hentry] at hlookup
    rw [lastOf_snoc, show transactionSlot? txError signature message = none by rw [transactionSlot?, hmsg],
      Option.none_or]
    exact h.entry signature entry hlookup
  last := by
    intro level last hl
    rw [lastStatus, lastOf_snoc]
    rcases hlast level last hl with hnew | ⟨hnone, hold⟩
    · rw [hnew]
      rfl
    · rw [hnone, Option.none_or]
      exact h.last level last hold

theorem History.transaction (h : History txError cache messages) {msg : MessageTransaction}
    (hmsg : message.message = .transaction msg) (hadd : cache.addSignature txError msg = .ok cache') :
    History txError cache' (messages ++ [message]) := by
  have hstatus : ∀ level, statusSlot? level message = none := by
    intro level
    rw [statusSlot?, hmsg]
  obtain ⟨hlast, ⟨hnone, rfl⟩ | ⟨signature, err, hsignature, herr, hself, hother⟩⟩ := addSignature_ok hadd
  · refine h.skip (fun _ _ => id) rfl (fun signature => ?_) fun level _ _ => hstatus level
    rw [transactionSlot?, hmsg]
    simp [hnone]
  · constructor
    · intro signature' entry hlookup
      have hslot : transactionSlot? txError signature' message =
          if signature = signature' then some msg.slot else none := by
        rw [transactionSlot?, hmsg]
        simp [hsignature, herr, Except.toOption]
      rw [lastOf_snoc, hslot]
      by_cases hsig : signature = signature'
      · subst hsig
        obtain rfl := Option.some.inj (hself.symm.trans hlookup)
        rw [if_pos rfl]
        rfl
      · rw [if_neg hsig, Option.none_or]
        exact h.entry signature' entry (hother signature' entry (Ne.symm hsig) hlookup)
    · intro level last hl
      rw [hlast] at hl
      rw [lastStatus, lastOf_snoc, hstatus, Option.none_or]
      exact h.last level last hl

theorem History.update (h : History txError cache messages)
    (hupdate : SignaturesCache.update txError cache message = .ok (cache', out)) :
    History txError cache' (messages ++ [message]) := by
  simp only [SignaturesCache.update] at hupdate
  split at hupdate
  · rename_i msg hmsg
    have htransaction : ∀ signature, transactionSlot? txError signature message = none := by
      intro signature
      rw [transactionSlot?, hmsg]
    split at hupdate
    · rename_i hdead
      cases hupdate
      refine h.skip (fun signature entry hlookup => ?_) rfl htransaction fun level last hl => ?_
      · rw [lookup_deadSlot] at hlookup
        split at hlookup
        · cases hlookup
        · exact hlookup
      · rw [statusSlot?, hmsg]
        cases level <;> simp [hdead]
    · rename_i hconfirmed
      cases hupdate
      refine h.status hmsg rfl fun level last hl => ?_
      rw [statusSlot?, hmsg]
      cases level with
      | processed => cases hl
      | confirmed =>
        cases hl
        exact .inl (by simp [hconfirmed])
      | finalized => exact .inr ⟨by simp [hconfirmed], hl⟩
    · rename_i hfinalized
      cases hupdate
      refine h.status hmsg rfl fun level last hl => ?_
      rw [statusSlot?, hmsg]
      cases level with
      | processed => cases hl
      | confirmed => exact .inr ⟨by simp [hfinalized], hl⟩
      | finalized =>
        cases hl
        exact .inl (by simp [hfinalized])
    · rename_i hother₁ hother₂ hother₃
      cases hupdate
      refine h.skip (fun _ _ => id) rfl htransaction fun level last hl => ?_
      rw [statusSlot?, hmsg]
      cases level <;> simp_all
  · rename_i msg hmsg
    cases hadd : cache.addSignature txError msg with
    | error e =>
      rw [hadd] at hupdate
      cases hupdate
    | ok next =>
      rw [hadd] at hupdate
      cases hupdate
      exact h.transaction hmsg hadd
  · rename_i hslot htransaction
    cases hupdate
    refine h.skip (fun _ _ => id) rfl (fun signature => ?_) fun level last hl => ?_
    · rw [transactionSlot?]
      split
      · rename_i msg hmsg
        exact absurd hmsg (htransaction msg)
      · rfl
    · rw [statusSlot?]
      split
      · rename_i msg hmsg
        exact absurd hmsg (hslot msg)
      · rfl

theorem History.run (h : History txError cache []) {received : List ParsedMessage}
    (hrun : Lib.run (SignaturesCache.update txError) cache messages = .ok (cache', received)) :
    History txError cache' messages :=
  run_induction (P := fun messages cache _ => History txError cache messages) h
    (fun _ _ _ _ _ _ _ h hupdate => h.update hupdate) hrun

end SignaturesCache

/-! ### The jobs of a transaction -/

/-- A transaction with the signature, and an error that can be read. -/
def CarriesSignature (env : WorkerEnv) (signature : Signature) (message : ParsedMessage) : Prop :=
  ∃ msg, message.message = .transaction msg ∧ msg.signature = .ok signature ∧ (env.txError msg).isSome

theorem SubscriptionsIndex.mem_candidates_signature {accountKeys : MessageTransaction → List Pubkey}
    {index : SubscriptionsIndex} {message : ParsedMessage} {msg : MessageTransaction} {signature : Signature}
    {candidates : List (SubscribeMethod × SubscriptionId)} {id : SubscriptionId}
    (hmsg : message.message = .transaction msg) (hsignature : msg.signature = .ok signature)
    (hid : id ∈ index.ids (.signature signature)) (h : index.candidates accountKeys message = .ok candidates) :
    (.signature, id) ∈ candidates := by
  have hkeys : index.signature.keys.isEmpty = false := by
    rw [ids, bucketIds] at hid
    cases hlookup : index.signature.lookup signature with
    | none =>
      rw [hlookup] at hid
      cases hid
    | some l =>
      have hmem : signature ∈ index.signature.keys :=
        AList.mem_keys.mp (AList.lookup_isSome.mp (by rw [hlookup]; rfl))
      cases hnil : index.signature.keys with
      | nil =>
        rw [hnil] at hmem
        cases hmem
      | cons x l => rfl
  unfold SubscriptionsIndex.candidates at h
  simp only [hmsg, hkeys, hsignature, Bool.false_eq_true, if_false] at h
  cases h
  exact List.mem_append_left _ (List.mem_append_right _ (List.mem_map.mpr ⟨id, hid, rfl⟩))

theorem Subscriptions.mem_jobs {s : Subscriptions} {method : SubscribeMethod} {id : SubscriptionId}
    {sub : SubscriptionInfo} (hsub : s.subscriptions.get? id = some sub)
    {candidates : List (SubscribeMethod × SubscriptionId)} :
    ∀ {jobs : List (SubscribeMethod × SubscriptionInfo)}, s.jobs candidates = .ok jobs →
      (method, id) ∈ candidates → (method, sub) ∈ jobs := by
  induction candidates with
  | nil =>
    intro jobs _ hmem
    cases hmem
  | cons candidate candidates ih =>
    intro jobs h hmem
    obtain ⟨method', id'⟩ := candidate
    simp only [Subscriptions.jobs] at h
    split at h
    · cases h
    · rename_i sub' hsub'
      cases hrest : s.jobs candidates with
      | error e =>
        rw [hrest] at h
        cases h
      | ok rest =>
        rw [hrest] at h
        cases h
        rcases List.mem_cons.mp hmem with heq | hmem
        · cases heq
          obtain rfl := Option.some.inj (hsub.symm.trans hsub')
          exact List.mem_cons_self
        · exact List.mem_cons_of_mem _ (ih hrest hmem)

namespace Worker

variable {env : WorkerEnv} {cfg : ConfigWorker} {s s' : Worker} {out events : List WorkerEvent}
  {level : CommitmentLevel} {tick tick' : Tick} {signature : Signature} {message : ParsedMessage}
  {messages : List ParsedMessage} {id : SubscriptionId} {sub : SubscriptionInfo}

/-- A job that ends the subscription. -/
def FinalJob (env : WorkerEnv) (id : SubscriptionId) (job : Job) : Prop :=
  job.method = .signature ∧ job.subscription.id = id ∧ ∃ signature level,
    job.subscription.config = .signature signature level ∧ CarriesSignature env signature job.message

theorem filterJob_final {slotFinalized : Slot} {job : Job} {notification : Option JobNotification}
    (hjob : FinalJob env id job) (h : filterJob env slotFinalized job = .ok notification) :
    ∃ n, notification = some n ∧ n.subscriptionId = id ∧ n.isFinal = true := by
  obtain ⟨hmethod, rfl, signature, level, hconfig, msg, hmsg, hsignature, herr⟩ := hjob
  obtain ⟨err, herr⟩ := Option.isSome_iff_exists.mp herr
  have hbytes : msg.signatureRef = .ok signature.val := by
    unfold MessageTransaction.signature at hsignature
    split at hsignature
    · cases hsignature
    · rename_i bytes hbytes
      split at hsignature
      · rename_i signature' htry
        cases hsignature
        unfold Signature.tryFrom at htry
        split at htry
        · cases htry
          exact hbytes
        · cases htry
      · cases hsignature
  unfold filterJob at h
  simp only [hmethod, hmsg, filterSignature, hconfig, hbytes, if_true, herr] at h
  cases h
  exact ⟨_, rfl, rfl, rfl⟩

theorem filterJobs_final {slotFinalized : Slot} {job : Job} (hjob : FinalJob env id job) {jobs : List Job} :
    ∀ {notifications : List JobNotification}, filterJobs env slotFinalized jobs = .ok notifications →
      job ∈ jobs → ∃ n ∈ notifications, n.subscriptionId = id ∧ n.isFinal = true := by
  induction jobs with
  | nil =>
    intro notifications _ hmem
    cases hmem
  | cons head jobs ih =>
    intro notifications h hmem
    simp only [filterJobs] at h
    split at h
    · cases h
    · rename_i notification hfilter
      cases hrest : filterJobs env slotFinalized jobs with
      | error e =>
        rw [hrest] at h
        cases h
      | ok rest =>
        rw [hrest] at h
        cases h
        rcases List.mem_cons.mp hmem with rfl | hmem
        · obtain ⟨n, rfl, hn⟩ := filterJob_final hjob hfilter
          exact ⟨n, List.mem_append_left _ List.mem_cons_self, hn⟩
        · obtain ⟨n, hn, hfinal⟩ := ih hrest hmem
          exact ⟨n, List.mem_append_right _ hn, hfinal⟩

/-- What collecting the messages of a stream does: the cache takes those of the processed stream, and the jobs
grow, by a final one for each transaction and subscription of its signature. -/
structure Collected (env : WorkerEnv) (messages : List ParsedMessage) (s s' : Worker) (tick tick' : Tick) :
    Prop where
  tracker : s'.tracker = s.tracker
  level : tick'.level = tick.level
  signatures : if tick.level = .processed then
      ∃ received, run (SignaturesCache.update env.txError) s.signatures messages = .ok (s'.signatures, received)
    else s'.signatures = s.signatures
  jobs : ∀ job ∈ tick.jobs, job ∈ tick'.jobs
  final : ∀ message ∈ messages, ∀ signature, CarriesSignature env signature message →
    ∀ id sub, s.tracker.subscriptions.subscriptions.get? id = some sub →
      sub.id = id → sub.config = .signature signature tick.level → ∃ job ∈ tick'.jobs, FinalJob env id job

theorem signatures_observe {extra : Option (ParsedMessage × SlotTransactionStats)}
    (h : s.observe env message = .ok (s', extra)) : ∃ received,
      SignaturesCache.update env.txError s.signatures message = .ok (s'.signatures, received) := by
  unfold observe at h
  split at h
  · cases h
  · rename_i signatures received hupdate
    refine ⟨received, ?_⟩
    dsimp only at h
    split at h
    · cases h
      exact hupdate
    · split at h
      · cases h
        exact hupdate
      · cases h
        exact hupdate

/-- The id of a signature subscription is in the index of its level. -/
theorem mem_ids_signature (hinv : Subscriptions.Inv env.hash s.tracker.subscriptions)
    (hsub : s.tracker.subscriptions.subscriptions.get? id = some sub)
    (hconfig : sub.config = .signature signature level) :
    id ∈ (s.tracker.subscriptions.index level).ids (.signature signature) := by
  rw [(hinv.stored.index level).mem_ids, Subscriptions.entry, hsub, Option.bind_some, hconfig]
  simp [SubscribeConfig.commitmentLevel, SubscribeConfig.key]

theorem collected_message (hinv : Subscriptions.Inv env.hash s.tracker.subscriptions)
    (h : s.collectMessage env tick message = .ok (s', tick')) : Collected env [message] s s' tick tick' := by
  obtain ⟨extra, candidates, jobs, hobserve, hsame, hcandidates, hjobs, rfl⟩ := collectMessage_eq_ok h
  have hsignatures : if tick.level = .processed then ∃ received,
      run (SignaturesCache.update env.txError) s.signatures [message] = .ok (s'.signatures, received)
      else s'.signatures = s.signatures := by
    split at hobserve
    · rename_i hlevel
      rw [if_pos hlevel]
      obtain ⟨received, hupdate⟩ := signatures_observe hobserve
      exact ⟨received, run_singleton.mpr hupdate⟩
    · rename_i hlevel
      rw [if_neg hlevel]
      cases hobserve
      rfl
  refine ⟨hsame.tracker, rfl, hsignatures, fun job => List.mem_append_left _, ?_⟩
  intro m hm signature hcarries id sub hsub hid hconfig
  obtain rfl := List.mem_singleton.mp hm
  obtain ⟨msg, hmsg, hsignature, herr⟩ := hcarries
  have hmem := SubscriptionsIndex.mem_candidates_signature hmsg hsignature
    (mem_ids_signature hinv hsub hconfig) hcandidates
  have hjob := Subscriptions.mem_jobs hsub hjobs hmem
  refine ⟨⟨.signature, m, sub, none⟩, List.mem_append_right _ (List.mem_map.mpr ⟨_, hjob, rfl⟩), rfl, hid,
    signature, tick.level, hconfig, msg, hmsg, hsignature, herr⟩

theorem collected_messages : ∀ {s : Worker} {tick : Tick},
    Subscriptions.Inv env.hash s.tracker.subscriptions →
    s.collectMessages env messages tick = .ok (s', tick') → Collected env messages s s' tick tick' := by
  induction messages with
  | nil =>
    intro s tick _ h
    cases h
    refine ⟨rfl, rfl, ?_, fun _ => id, by simp⟩
    split
    · exact ⟨[], rfl⟩
    · rfl
  | cons message messages ih =>
    intro s tick hinv h
    unfold collectMessages at h
    split at h
    · cases h
    · rename_i s₁ tick₁ hmessage
      have hone := collected_message hinv hmessage
      have hrest := ih (by rw [hone.tracker]; exact hinv) h
      have hsig := hrest.signatures
      rw [hone.level] at hsig
      refine ⟨hrest.tracker.trans hone.tracker, hrest.level.trans hone.level, ?_,
        fun job hjob => hrest.jobs job (hone.jobs job hjob), ?_⟩
      · have hsig₁ := hone.signatures
        split
        · rename_i hlevel
          rw [if_pos hlevel] at hsig hsig₁
          obtain ⟨received₁, h₁⟩ := hsig₁
          obtain ⟨received, h₂⟩ := hsig
          exact ⟨received₁ ++ received, run_cons_ok.mpr ⟨_, _, _, run_singleton.mp h₁, h₂, rfl⟩⟩
        · rename_i hlevel
          rw [if_neg hlevel] at hsig hsig₁
          exact hsig.trans hsig₁
      · intro m hm signature hcarries id sub hsub hid hconfig
        rcases List.mem_cons.mp hm with rfl | hm
        · obtain ⟨job, hjob, hfinal⟩ :=
            hone.final m (List.mem_singleton_self _) signature hcarries id sub hsub hid hconfig
          exact ⟨job, hrest.jobs job hjob, hfinal⟩
        · exact hrest.final m hm signature hcarries id sub (by rw [hone.tracker]; exact hsub) hid
            (by rw [hone.level]; exact hconfig)

/-! ### What waits -/

/-- The messages of the processed stream that are taken and not collected. -/
def WorkerPhase.pending : WorkerPhase → List ParsedMessage
  | .collect tick => if tick.level = .processed then tick.messages else []
  | _ => []

/-- A message that answers the subscription is on its way. -/
def WorkerPhase.Answers (env : WorkerEnv) (id : SubscriptionId) (signature : Signature)
    (level : CommitmentLevel) : WorkerPhase → Prop
  | .collect tick =>
    (tick.level = level ∧ ∃ message ∈ tick.messages, CarriesSignature env signature message) ∨
      ∃ job ∈ tick.jobs, FinalJob env id job
  | .deliver notifications => ∃ n ∈ notifications, n.subscriptionId = id ∧ n.isFinal = true
  | .stopped => True
  | _ => False

/-- The worker has taken a transaction with the signature from the stream. -/
def TookSignature (env : WorkerEnv) (events : List WorkerEvent) (level : CommitmentLevel)
    (signature : Signature) : Prop :=
  ∃ message ∈ consumedFrom level events, CarriesSignature env signature message

/-- A subscription waits only for a signature that was not taken from its stream, unless the answer is on its
way. -/
def NotMissed (env : WorkerEnv) (events : List WorkerEvent) (s : Worker) : Prop :=
  ∀ id sub signature level, s.tracker.subscriptions.subscriptions.get? id = some sub →
    sub.config = .signature signature level → TookSignature env events level signature →
    WorkerPhase.Answers env id signature level s.phase

structure SignatureInv (env : WorkerEnv) (cfg : ConfigWorker) (events : List WorkerEvent) (s : Worker) : Prop where
  subscriptions : Subscriptions.Inv env.hash s.tracker.subscriptions
  ids : ∀ id sub, s.tracker.subscriptions.subscriptions.get? id = some sub → sub.id = id
  cache : (∃ applied received, run (SignaturesCache.update env.txError)
      (.new cfg.signaturesCacheMax cfg.signaturesCacheSlotsMax) applied = .ok (s.signatures, received) ∧
      consumedFrom .processed events = applied ++ WorkerPhase.pending s.phase) ∨ s.phase = .stopped
  missed : NotMissed env events s

/-! ### The condition -/

/-- The cache has an answer: the last transaction with the signature that was taken from the processed stream is
still in it, and the last status of the commitment that was taken from that stream is not of a lower slot. -/
def Answerable (env : WorkerEnv) (s : Worker) (events : List WorkerEvent) (level : CommitmentLevel)
    (signature : Signature) : Prop :=
  (s.signatures.signatures.lookup signature).isSome ∧
  ∃ slot, lastOf (transactionSlot? env.txError signature) (consumedFrom .processed events) = some slot ∧
    (level ≠ .processed → slot ≤ lastStatus level (consumedFrom .processed events))

/-- A subscription to a signature that was taken from its stream comes when the cache has the answer; and no other
config has its hash. -/
def Covered (env : WorkerEnv) (s : Worker) (events : List WorkerEvent) : WorkerAction → Prop
  | .request (.subscribe _ (.signature signature level)) =>
    (TookSignature env events level signature → Answerable env s events level signature) ∧
    ∀ id sub, s.tracker.subscriptions.subscriptionsByConfig.get? (env.hash (.signature signature level)) = some id →
      s.tracker.subscriptions.subscriptions.get? id = some sub → sub.config = .signature signature level
  | _ => True

theorem track_step {action : TrackerAction} {phase : WorkerPhase}
    (htrack : s.track env action phase = .ok (s', out)) : ∃ sent,
      Tracker.step env.hash env.encode s.tracker action = .ok (s'.tracker, sent) ∧ s'.phase = phase ∧
      out = sent.map .sent := by
  unfold Worker.track at htrack
  split at htrack
  · cases htrack
  · rename_i tracker sent hstep
    cases htrack
    exact ⟨sent, hstep, rfl, rfl⟩

namespace SignatureInv

theorem new {channel : ConfigChannelInner} : SignatureInv env cfg [] (.new cfg channel) where
  subscriptions := Subscriptions.default_inv
  ids := by
    intro id sub h
    cases h
  cache := .inl ⟨[], [], rfl, rfl⟩
  missed := by
    intro id sub signature level h
    cases h

theorem took_append (hconsumed : ∀ level, consumedFrom level out = []) :
    TookSignature env (events ++ out) level signature ↔ TookSignature env events level signature := by
  unfold TookSignature
  rw [consumedFrom_append, hconsumed, List.append_nil]

/-- A step that leaves the subscriptions and the cache alone. -/
theorem keep (h : SignatureInv env cfg events s) (hsubs : s'.tracker.subscriptions = s.tracker.subscriptions)
    (hsignatures : s'.signatures = s.signatures) (hconsumed : ∀ level, consumedFrom level out = [])
    (hpending : WorkerPhase.pending s'.phase = WorkerPhase.pending s.phase)
    (hstopped : s.phase = .stopped → s'.phase = .stopped)
    (hanswers : ∀ id signature level, WorkerPhase.Answers env id signature level s.phase →
      WorkerPhase.Answers env id signature level s'.phase) :
    SignatureInv env cfg (events ++ out) s' where
  subscriptions := by
    rw [hsubs]
    exact h.subscriptions
  ids := by
    rw [hsubs]
    exact h.ids
  cache := by
    rcases h.cache with ⟨applied, received, hrun, heq⟩ | hphase
    · refine .inl ⟨applied, received, by rw [hsignatures]; exact hrun, ?_⟩
      rw [consumedFrom_append, hconsumed, List.append_nil, hpending]
      exact heq
    · exact .inr (hstopped hphase)
  missed := by
    intro id sub signature level hsub hconfig htook
    rw [hsubs] at hsub
    exact hanswers id signature level (h.missed id sub signature level hsub hconfig
      ((took_append hconsumed).mp htook))

/-- The messages of a stream are collected. -/
theorem finish (h : SignatureInv env cfg events s) (hphase : s.phase = .collect tick)
    (hconsumed : ∀ level, consumedFrom level out = []) (hfinish : s.finishStream env tick = .ok s') :
    SignatureInv env cfg (events ++ out) s' := by
  unfold finishStream at hfinish
  split at hfinish
  · cases hfinish
  · rename_i s₁ tick₁ hcollect
    have hcollected := collected_messages h.subscriptions hcollect
    -- every answer is in a job now
    have hjobs : ∀ id sub signature level, s.tracker.subscriptions.subscriptions.get? id = some sub →
        sub.config = .signature signature level → TookSignature env (events ++ out) level signature →
        ∃ job ∈ tick₁.jobs, FinalJob env id job := by
      intro id sub signature level hsub hconfig htook
      have hanswers := h.missed id sub signature level hsub hconfig ((took_append hconsumed).mp htook)
      rw [hphase] at hanswers
      rcases hanswers with ⟨rfl, m, hm, hcarries⟩ | ⟨job, hjob, hfinal⟩
      · exact hcollected.final m hm signature hcarries id sub hsub (h.ids id sub hsub) hconfig
      · exact ⟨job, hcollected.jobs job hjob, hfinal⟩
    have hcache : ∃ applied received, run (SignaturesCache.update env.txError)
        (.new cfg.signaturesCacheMax cfg.signaturesCacheSlotsMax) applied = .ok (s₁.signatures, received) ∧
        consumedFrom .processed (events ++ out) = applied ++ [] := by
      rcases h.cache with ⟨applied, received, hrun, heq⟩ | hstopped
      · have hsig := hcollected.signatures
        rw [consumedFrom_append, hconsumed, List.append_nil, heq, hphase, WorkerPhase.pending]
        split at hsig
        · rename_i hlevel
          obtain ⟨received', hmessages⟩ := hsig
          refine ⟨applied ++ tick.messages, received ++ received', run_append.mpr ⟨_, _, _, hrun, hmessages, rfl⟩, ?_⟩
          rw [if_pos hlevel, List.append_nil]
        · rename_i hlevel
          refine ⟨applied, received, by rw [hsig]; exact hrun, ?_⟩
          rw [if_neg hlevel]
      · rw [hphase] at hstopped
        cases hstopped
    have hkeep : ∀ next : Worker, next.tracker = s.tracker → next.signatures = s₁.signatures →
        WorkerPhase.pending next.phase = [] →
        (∀ id signature level, (∃ job ∈ tick₁.jobs, FinalJob env id job) →
          WorkerPhase.Answers env id signature level next.phase) → SignatureInv env cfg (events ++ out) next := by
      intro next htracker hsignatures hpending hanswers
      obtain ⟨applied, received, hrun, heq⟩ := hcache
      refine ⟨by rw [htracker]; exact h.subscriptions, by rw [htracker]; exact h.ids,
        .inl ⟨applied, received, by rw [hsignatures]; exact hrun, by rw [hpending]; exact heq⟩, ?_⟩
      intro id sub signature level hsub hconfig htook
      rw [htracker] at hsub
      exact hanswers id signature level (hjobs id sub signature level hsub hconfig htook)
    dsimp only at hfinish
    split at hfinish
    · cases hfinish
      exact hkeep _ hcollected.tracker rfl rfl fun _ _ _ hjob => .inr hjob
    · cases hfinish
      exact hkeep _ hcollected.tracker rfl rfl fun _ _ _ hjob => .inr hjob
    · split at hfinish
      · cases hfinish
      · rename_i extra _
        split at hfinish
        · rename_i hnone
          cases hfinish
          refine hkeep _ hcollected.tracker rfl rfl fun id signature level hjob => ?_
          obtain ⟨job, hjob, -⟩ := hjob
          rw [List.isEmpty_iff, List.append_eq_nil_iff] at hnone
          rw [hnone.1] at hjob
          cases hjob
        · split at hfinish
          · cases hfinish
          · rename_i notifications hfilter
            cases hfinish
            refine hkeep _ hcollected.tracker rfl rfl fun id signature level hjob => ?_
            obtain ⟨job, hjob, hfinal⟩ := hjob
            exact filterJobs_final hfinal hfilter (List.mem_append_left _ hjob)

/-- A message is taken. -/
theorem take (h : SignatureInv env cfg events s) (hphase : s.phase = .collect tick)
    (htracker : s'.tracker = s.tracker) (hsignatures : s'.signatures = s.signatures)
    (hphase' : s'.phase = .collect (tick.receive message)) :
    SignatureInv env cfg (events ++ [.consumed tick.level message]) s' := by
  have hone : ∀ level, consumedFrom level [.consumed tick.level message] =
      if tick.level = level then [message] else [] := by
    intro level
    by_cases hlevel : tick.level = level <;> simp [consumedFrom, WorkerEvent.consumed?, hlevel]
  obtain ⟨-, hlevel'⟩ := receive_fields tick message
  have hjobs : (tick.receive message).jobs = tick.jobs := by
    unfold Tick.receive
    split <;> rfl
  have hmessages : ∀ m ∈ tick.messages, m ∈ (tick.receive message).messages := by
    unfold Tick.receive
    split
    · exact fun m hm => hm
    · exact fun m hm => List.mem_append_left _ hm
  refine ⟨by rw [htracker]; exact h.subscriptions, by rw [htracker]; exact h.ids, .inl ?_, ?_⟩
  · rcases h.cache with ⟨applied, received, hrun, heq⟩ | hstopped
    · refine ⟨applied, received, by rw [hsignatures]; exact hrun, ?_⟩
      rw [consumedFrom_append, heq, hphase, hphase', hone, WorkerPhase.pending, WorkerPhase.pending, hlevel']
      by_cases hlevel : tick.level = .processed
      · rw [if_pos hlevel, if_pos hlevel, if_pos hlevel, List.append_assoc]
        simp [Tick.receive, hlevel]
      · rw [if_neg hlevel, if_neg hlevel, if_neg hlevel, List.append_nil]
    · rw [hphase] at hstopped
      cases hstopped
  · intro id sub signature level hsub hconfig htook
    rw [htracker] at hsub
    obtain ⟨m, hm, hcarries⟩ := htook
    rw [consumedFrom_append, hone] at hm
    rw [hphase']
    rcases List.mem_append.mp hm with hm | hm
    · have hanswers := h.missed id sub signature level hsub hconfig ⟨m, hm, hcarries⟩
      rw [hphase] at hanswers
      rcases hanswers with ⟨hl, m', hm', hcarries'⟩ | ⟨job, hjob, hfinal⟩
      · exact .inl ⟨hlevel'.trans hl, m', hmessages m' hm', hcarries'⟩
      · exact .inr ⟨job, by rw [hjobs]; exact hjob, hfinal⟩
    · split at hm
      · rename_i hl
        obtain rfl := List.mem_singleton.mp hm
        refine .inl ⟨hlevel'.trans hl, m, ?_, hcarries⟩
        obtain ⟨msg, hmsg, -⟩ := hcarries
        simp [Tick.receive, hmsg]
      · cases hm

/-- The cache answers when it is `Answerable`. -/
theorem get_cached (h : SignatureInv env cfg events s) {n : ℕ} (hphase : s.phase = .requests n)
    (hanswerable : Answerable env s events level signature) :
    ∃ answer, s.signatures.cached.get signature level = some answer := by
  obtain ⟨hlookup, slot, htransaction, hstatus⟩ := hanswerable
  obtain ⟨entry, hentry⟩ := Option.isSome_iff_exists.mp hlookup
  rcases h.cache with ⟨applied, received, hrun, heq⟩ | hstopped
  · rw [hphase, show WorkerPhase.pending (.requests n) = [] from rfl, List.append_nil] at heq
    rw [heq] at htransaction hstatus
    have hhistory := (SignaturesCache.History.new _ _).run hrun
    refine ⟨entry, SignaturesCache.get_eq_some.mpr ⟨hentry, fun last hlast => ?_⟩⟩
    have hslot := Option.some.inj ((hhistory.entry signature entry hentry).symm.trans htransaction)
    rw [hhistory.last level last hlast, hslot]
    refine hstatus ?_
    rintro rfl
    cases hlast
  · rw [hphase] at hstopped
    cases hstopped

/-- The tracker takes a step, between two messages. -/
theorem track (h : SignatureInv env cfg events s) {action : TrackerAction} {phase : WorkerPhase}
    (htrack : s.track env action phase = .ok (s', out)) (hpending : WorkerPhase.pending s.phase = [])
    (hpending' : WorkerPhase.pending phase = []) (hstopped : s.phase ≠ .stopped)
    (hmissed : ∀ id sub signature level, s'.tracker.subscriptions.subscriptions.get? id = some sub →
      sub.config = .signature signature level → TookSignature env events level signature →
      WorkerPhase.Answers env id signature level phase) :
    SignatureInv env cfg (events ++ out) s' := by
  unfold Worker.track at htrack
  split at htrack
  · cases htrack
  · rename_i tracker sent hstep
    cases htrack
    have hinv : Subscriptions.Inv env.hash tracker.subscriptions := by
      obtain ⟨tracker', sent', hstep', hinv⟩ : ∃ tracker' sent',
          Tracker.step env.hash env.encode s.tracker action = .ok (tracker', sent') ∧
          Subscriptions.Inv env.hash tracker'.subscriptions := Tracker.step_ok h.subscriptions action
      rw [hstep] at hstep'
      cases hstep'
      exact hinv
    have hconsumed : ∀ level, consumedFrom level (sent.map .sent) = [] := fun level => (events_sent level sent).2
    refine ⟨hinv, fun id sub hsub => ?_, .inl ?_, fun id sub signature level hsub hconfig htook => ?_⟩
    · rcases Tracker.step_subscription hstep id sub hsub with ⟨old, hold, hid, -⟩ | ⟨_, _, _, -, hid, -⟩
      · exact hid.trans (h.ids id old hold)
      · exact hid
    · rcases h.cache with ⟨applied, received, hrun, heq⟩ | hphase
      · refine ⟨applied, received, hrun, ?_⟩
        rw [consumedFrom_append, hconsumed, List.append_nil, heq, hpending, hpending']
      · exact absurd hphase hstopped
    · exact hmissed id sub signature level hsub hconfig ((took_append hconsumed).mp htook)

theorem step (h : SignatureInv env cfg events s) {a : WorkerAction} (hcovered : Covered env s events a)
    (hstep : Worker.step env cfg s a = .ok (s', out)) : SignatureInv env cfg (events ++ out) s' := by
  cases a with
  | ring level action =>
    simp only [Worker.step] at hstep
    split at hstep
    · cases hstep
    · rename_i ring channelEvents hring
      cases hstep
      exact h.keep rfl rfl (fun l => consumedFrom_ring l level channelEvents) rfl id fun _ _ _ => id
  | loadHead =>
    simp only [Worker.step] at hstep
    split at hstep
    · rename_i level levels hphase
      cases hstep
      refine h.keep rfl rfl (fun _ => rfl) ?_ ?_ ?_
      · rw [hphase]
        dsimp only
        split <;> rfl
      · intro hstopped
        rw [hphase] at hstopped
        cases hstopped
      · intro _ _ _ hanswers
        rw [hphase] at hanswers
        exact hanswers.elim
    · cases hstep
  | request request =>
    simp only [Worker.step] at hstep
    split at hstep
    · rename_i n hphase
      split at hstep
      · obtain ⟨sent, htracker, -, -⟩ := track_step hstep
        refine h.track hstep (by rw [hphase]; rfl) rfl (fun hstopped => by rw [hphase] at hstopped; cases hstopped) ?_
        intro id sub signature level hsub hconfig htook
        exfalso
        rcases Tracker.step_subscription htracker id sub hsub with
          ⟨old, hold, -, hsame⟩ | ⟨client, config, signatures, haction, -, hsame, hnone⟩
        · have hanswers := h.missed id old signature level hold (hsame ▸ hconfig) htook
          rw [hphase] at hanswers
          exact hanswers
        · -- a subscription is made only if the cache has no answer
          rw [hsame] at hconfig
          cases request with
          | subscribe client' config' =>
            simp only [ClientRequest.action, TrackerAction.subscribe.injEq] at haction
            obtain ⟨rfl, rfl, rfl⟩ := haction
            subst hconfig
            obtain ⟨answer, hanswer⟩ := h.get_cached hphase (hcovered.1 htook)
            rw [hnone signature level rfl] at hanswer
            cases hanswer
          | _ => cases haction
      · cases hstep
    · cases hstep
  | collect =>
    simp only [Worker.step] at hstep
    split at hstep
    · rename_i n hphase
      cases hstep
      refine h.keep rfl rfl (fun _ => rfl) ?_ ?_ ?_
      · rw [hphase]
        rfl
      · intro hstopped
        rw [hphase] at hstopped
        cases hstopped
      · intro _ _ _ hanswers
        rw [hphase] at hanswers
        exact hanswers.elim
    · cases hstep
  | load =>
    simp only [Worker.step] at hstep
    split at hstep
    · rename_i tick hphase
      split at hstep
      · cases hstep
      · split at hstep
        · split at hstep
          · cases hstep
            refine h.keep rfl rfl (fun _ => rfl) ?_ ?_ ?_
            · rw [hphase]
              rfl
            · intro hstopped
              rw [hphase] at hstopped
              cases hstopped
            · intro _ _ _ hanswers
              rw [hphase] at hanswers
              exact hanswers
          · cases hfinish : s.finishStream env tick with
            | error e =>
              rw [hfinish] at hstep
              cases hstep
            | ok s₁ =>
              rw [hfinish] at hstep
              cases hstep
              exact h.finish hphase (fun _ => rfl) hfinish
        · cases hfinish : s.finishStream env tick with
          | error e =>
            rw [hfinish] at hstep
            cases hstep
          | ok s₁ =>
            rw [hfinish] at hstep
            cases hstep
            exact h.finish hphase (fun _ => rfl) hfinish
    · cases hstep
  | read =>
    simp only [Worker.step] at hstep
    split at hstep
    · rename_i tick hphase
      have hstop : SignatureInv env cfg (events ++ [.lagged tick.level]) { s with phase := .stopped } :=
        ⟨h.subscriptions, h.ids, .inr rfl, fun _ _ _ _ _ _ _ => trivial⟩
      split at hstep
      · split at hstep
        · cases hstep
          exact hstop
        · split at hstep
          · cases hstep
            exact hstop
          · cases hstep
            exact h.take hphase rfl rfl rfl
      · cases hstep
    · cases hstep
  | deliver =>
    simp only [Worker.step] at hstep
    split at hstep
    · rename_i hphase
      cases hstep
      refine h.keep rfl rfl (fun _ => rfl) ?_ ?_ ?_
      · rw [hphase]
        rfl
      · intro hstopped
        rw [hphase] at hstopped
        cases hstopped
      · intro _ _ _ hanswers
        rw [hphase] at hanswers
        obtain ⟨n, hn, -⟩ := hanswers
        cases hn
    · rename_i n notifications hphase
      obtain ⟨sent, htracker, -, -⟩ := track_step hstep
      refine h.track hstep (by rw [hphase]; rfl) rfl (fun hstopped => by rw [hphase] at hstopped; cases hstopped) ?_
      intro id sub signature level hsub hconfig htook
      rcases Tracker.step_subscription htracker id sub hsub with
        ⟨old, hold, -, hsame⟩ | ⟨client, config, signatures, haction, -⟩
      · have hanswers := h.missed id old signature level hold (hsame ▸ hconfig) htook
        rw [hphase] at hanswers
        obtain ⟨m, hm, hid, hfinal⟩ := hanswers
        rcases List.mem_cons.mp hm with rfl | hm
        · -- the delivery has ended the subscription
          rw [hid, hfinal] at htracker
          rw [Tracker.deliver_final h.subscriptions htracker] at hsub
          cases hsub
        · exact ⟨m, hm, hid, hfinal⟩
      · cases haction
    · cases hstep
  | recv channel =>
    simp only [Worker.step, Worker.track, Tracker.step] at hstep
    cases hstep
    exact h.keep rfl rfl (fun _ => rfl) rfl id fun _ _ _ => id
  | close channel =>
    simp only [Worker.step, Worker.track, Tracker.step] at hstep
    cases hstep
    exact h.keep rfl rfl (fun _ => rfl) rfl id fun _ _ _ => id

theorem run {channel : ConfigChannelInner} {actions : List WorkerAction}
    (hcovered : AllAlong (Worker.step env cfg) (Covered env) (.new cfg channel) actions)
    (hrun : Lib.run (Worker.step env cfg) (.new cfg channel) actions = .ok (s, events)) :
    SignatureInv env cfg events s := by
  refine run_induction_along (P := fun _ s events => SignatureInv env cfg events s) .new ?_ hcovered hrun
  intro _ s tr a s' out _ h hcovered hstep
  exact h.step hcovered hstep

end SignatureInv

/-! ### Subscriptions to signatures -/

/-- What a client gets for a subscription to a signature: an answer at once; or it waits, and then the transaction
was not taken from the stream yet. -/
def Subscribes (env : WorkerEnv) (events : List WorkerEvent) (client : ClientId) (signature : Signature)
    (level : CommitmentLevel) (s' : Worker) (out : List WorkerEvent) : Prop :=
  (∃ e, out = [.sent e] ∧ e.client = client ∧ e.notification.isFinal = true) ∨
  (out = [] ∧ ¬ TookSignature env events level signature ∧
    ∃ id sub, s'.tracker.subscriptions.subscriptions.get? id = some sub ∧
      sub.config = .signature signature level ∧ sub.clients.contains client)

/-- How a client loses a subscription. -/
def Leaves (client : ClientId) (id : SubscriptionId) (a : WorkerAction) (out : List WorkerEvent) : Prop :=
  (∃ e, .sent e ∈ out ∧ e.client = client ∧
    (e.notification.subscriptionId = id ∧ e.notification.isFinal = true ∨ e.sent = false)) ∨
  a = .request (.unsubscribe client id) ∨ a = .request (.remove client) ∨
  ∃ maxCount, a = .request (.register client maxCount)

theorem SignatureInv.subscribes (h : SignatureInv env cfg events s) {client : ClientId} {info : ClientInfo}
    (hcovered : Covered env s events (.request (.subscribe client (.signature signature level))))
    (hstep : Worker.step env cfg s (.request (.subscribe client (.signature signature level))) = .ok (s', out))
    (hclient : s.tracker.subscriptions.clients.get? client = some info) :
    Subscribes env events client signature level s' out := by
  have hnext := h.step hcovered hstep
  simp only [Worker.step] at hstep
  split at hstep
  · split at hstep
    · obtain ⟨sent, htracker, hphase, rfl⟩ := track_step hstep
      simp only [ClientRequest.action, Tracker.step] at htracker
      cases hsubscribe : s.tracker.subscribe env.hash env.encode client (.signature signature level)
          s.signatures.cached with
      | error e =>
        rw [hsubscribe] at htracker
        cases htracker
      | ok r =>
        obtain ⟨tracker, id, sent'⟩ := r
        rw [hsubscribe] at htracker
        cases htracker
        rcases Tracker.subscribe_outcome hsubscribe hclient with
          ⟨e, rfl, hclient, hfinal⟩ | ⟨rfl, sub, hsub, hcontains, hconfig⟩
        · exact .inl ⟨e, rfl, hclient, hfinal⟩
        · have hconfig : sub.config = .signature signature level := by
            rcases hconfig with hconfig | ⟨old, hby, hold, hsame⟩
            · exact hconfig
            · exact hsame.trans (hcovered.2 id old hby hold)
          refine .inr ⟨rfl, fun htook => ?_, id, sub, hsub, hconfig, hcontains⟩
          have hanswers := hnext.missed id sub signature level hsub hconfig (by simpa using htook)
          rw [hphase] at hanswers
          exact hanswers
    · cases hstep
  · cases hstep

theorem leaves (h : SignatureInv env cfg events s) {a : WorkerAction} {client : ClientId}
    (hstep : Worker.step env cfg s a = .ok (s', out)) (hlists : s.tracker.subscriptions.Lists id client)
    (hnot : ¬ s'.tracker.subscriptions.Lists id client) : Leaves client id a out := by
  have htrack : ∀ {action : TrackerAction} {phase : WorkerPhase}, s.track env action phase = .ok (s', out) →
      (∃ e, .sent e ∈ out ∧ e.client = client ∧
        (e.notification.subscriptionId = id ∧ e.notification.isFinal = true ∨ e.sent = false)) ∨
      action = .unsubscribe client id ∨ action = .remove client ∨
      ∃ maxCount, action = .register client maxCount := by
    intro action phase htrack
    obtain ⟨sent, htracker, -, rfl⟩ := track_step htrack
    refine (Tracker.leaves h.subscriptions htracker hlists hnot).imp_left ?_
    rintro ⟨e, he, hrest⟩
    exact ⟨e, List.mem_map_of_mem he, hrest⟩
  have hsame : s'.tracker = s.tracker → Leaves client id a out := by
    intro heq
    rw [heq] at hnot
    exact absurd hlists hnot
  have hfinish : ∀ {tick : Tick} {events : List WorkerEvent},
      (s.finishStream env tick).map (·, events) = .ok (s', out) → s'.tracker = s.tracker := by
    intro tick events hmap
    cases hfinish : s.finishStream env tick with
    | error e =>
      rw [hfinish] at hmap
      cases hmap
    | ok s₁ =>
      rw [hfinish] at hmap
      cases hmap
      exact (finishStream_fields hfinish).1.tracker
  cases a with
  | request request =>
    simp only [Worker.step] at hstep
    split at hstep
    · split at hstep
      · rcases htrack hstep with hevent | haction
        · exact .inl hevent
        · right
          cases request with
          | register c maxCount =>
            rcases haction with haction | haction | ⟨m, haction⟩ <;> cases haction
            exact .inr (.inr ⟨maxCount, rfl⟩)
          | subscribe c config => rcases haction with haction | haction | ⟨m, haction⟩ <;> cases haction
          | unsubscribe c j =>
            rcases haction with haction | haction | ⟨m, haction⟩ <;> cases haction
            exact .inl rfl
          | remove c =>
            rcases haction with haction | haction | ⟨m, haction⟩ <;> cases haction
            exact .inr (.inl rfl)
      · cases hstep
    · cases hstep
  | deliver =>
    simp only [Worker.step] at hstep
    split at hstep
    · cases hstep
      exact hsame rfl
    · rcases htrack hstep with hevent | haction | haction | ⟨m, haction⟩
      · exact .inl hevent
      all_goals cases haction
    · cases hstep
  | ring level action =>
    simp only [Worker.step] at hstep
    split at hstep <;> cases hstep
    exact hsame rfl
  | loadHead =>
    simp only [Worker.step] at hstep
    split at hstep <;> cases hstep
    exact hsame rfl
  | collect =>
    simp only [Worker.step] at hstep
    split at hstep <;> cases hstep
    exact hsame rfl
  | load =>
    simp only [Worker.step] at hstep
    split at hstep
    · split at hstep
      · cases hstep
      · split at hstep
        · split at hstep
          · cases hstep
            exact hsame rfl
          · exact hsame (hfinish hstep)
        · exact hsame (hfinish hstep)
    · cases hstep
  | read =>
    simp only [Worker.step] at hstep
    split at hstep
    · split at hstep
      · split at hstep
        · cases hstep
          exact hsame rfl
        · split at hstep
          · cases hstep
            exact hsame rfl
          · cases hstep
            exact hsame rfl
      · cases hstep
    · cases hstep
  | recv channel =>
    simp only [Worker.step, Worker.track, Tracker.step] at hstep
    cases hstep
    exact absurd hlists hnot
  | close channel =>
    simp only [Worker.step, Worker.track, Tracker.step] at hstep
    cases hstep
    exact absurd hlists hnot

/-- The worker has taken all messages, and none is on its way through a tick. -/
structure Idle (s : Worker) : Prop where
  empty : ∀ level, (s.rings level).sender.shared.tail < s.heads level
  phase : (∃ n, s.phase = .requests n) ∨ ∃ level, s.phase = .collect ⟨[], [], level, [], false⟩

def WorkerPhase.isRequests : WorkerPhase → Bool
  | .requests _ => true
  | _ => false

theorem WorkerPhase.isRequests_iff {phase : WorkerPhase} :
    WorkerPhase.isRequests phase = true ↔ ∃ n, phase = .requests n := by
  cases phase <;> simp [WorkerPhase.isRequests]

/-- What the worker does by itself. -/
def InTick : WorkerAction → Prop
  | .loadHead | .collect | .load | .read | .deliver => True
  | _ => False

theorem Idle.finishStream {l : CommitmentLevel} (h : Idle s)
    (hfinish : s.finishStream env ⟨[], [], l, [], false⟩ = .ok s') : Idle s' ∧ s'.tracker = s.tracker := by
  simp only [Worker.finishStream, collectMessages] at hfinish
  cases l with
  | processed | confirmed =>
    cases hfinish
    exact ⟨⟨h.empty, .inr ⟨_, rfl⟩⟩, rfl⟩
  | finalized =>
    simp only [collectSlotsUpdatesJobs] at hfinish
    split at hfinish
    · cases hfinish
    · rename_i jobs hjobs
      split at hjobs
      · cases hjobs
      · cases hjobs
        cases hfinish
        exact ⟨⟨h.empty, .inl ⟨0, rfl⟩⟩, rfl⟩

theorem Idle.step {a : WorkerAction} (h : Idle s) (ha : InTick a)
    (hstep : Worker.step env cfg s a = .ok (s', out)) : Idle s' ∧ s'.tracker = s.tracker := by
  rcases h.phase with ⟨n, hphase⟩ | ⟨l, hphase⟩
  · cases a with
    | collect =>
      simp only [Worker.step, hphase] at hstep
      cases hstep
      exact ⟨⟨h.empty, .inr ⟨_, rfl⟩⟩, rfl⟩
    | loadHead | load | read | deliver =>
      simp only [Worker.step, hphase] at hstep
      cases hstep
    | _ => exact ha.elim
  · cases a with
    | load =>
      have hfinish : ∃ events, (s.finishStream env ⟨[], [], l, [], false⟩).map (·, events) = .ok (s', out) := by
        simp only [Worker.step, hphase] at hstep
        split at hstep
        · cases ‹false = true›
        · split at hstep
          · rw [if_neg (not_le.mpr (h.empty l))] at hstep
            exact ⟨_, hstep⟩
          · exact ⟨_, hstep⟩
      obtain ⟨events, hfinish⟩ := hfinish
      cases hstream : s.finishStream env ⟨[], [], l, [], false⟩ with
      | error e =>
        rw [hstream] at hfinish
        cases hfinish
      | ok s₁ =>
        rw [hstream] at hfinish
        cases hfinish
        exact h.finishStream hstream
    | read =>
      simp only [Worker.step, hphase] at hstep
      cases hstep
    | loadHead | collect | deliver =>
      simp only [Worker.step, hphase] at hstep
      cases hstep
    | _ => exact ha.elim

/-- Nobody is answered in ticks without new messages. -/
theorem Idle.run {actions : List WorkerAction} (h : Idle s) (hticks : ∀ a ∈ actions, InTick a)
    (hrun : Lib.run (Worker.step env cfg) s actions = .ok (s', events)) :
    Idle s' ∧ s'.tracker = s.tracker := by
  induction actions generalizing s events with
  | nil =>
    cases hrun
    exact ⟨h, rfl⟩
  | cons a actions ih =>
    obtain ⟨s₁, out, rest, hstep, hrest, rfl⟩ := run_cons_ok.mp hrun
    obtain ⟨hidle, htracker⟩ := h.step (hticks a List.mem_cons_self) hstep
    obtain ⟨hidle', htracker'⟩ := ih hidle (fun b hb => hticks b (List.mem_cons_of_mem _ hb)) hrest
    exact ⟨hidle', htracker'.trans htracker⟩

end Worker

def Signature.zero : Signature := ⟨List.replicate 64 0, by decide⟩

/-- A transaction of the slot `5`. -/
def Worker.lateTransaction : ParsedMessage := ⟨0, .transaction ⟨5, 0, some (List.replicate 64 0), 0, []⟩⟩

def Worker.lateStatus (status : SlotStatus) : ParsedMessage := ⟨0, .slot ⟨5, status, none, []⟩⟩

/-- The transaction is taken from the processed stream, and then from the confirmed one. -/
def Worker.takeTransaction : List WorkerAction :=
  [.ring .processed (.store 4 ⟨0, .slot ⟨4, .slotProcessed, none, []⟩⟩ none), .ring .processed .publish,
    .loadHead, .loadHead, .loadHead,
    .ring .processed (.store 5 lateTransaction none), .ring .processed .publish,
    .ring .processed (.store 5 (lateStatus .slotProcessed) none), .ring .processed .publish,
    .collect, .load, .read, .load, .read, .load, .read, .load, .load, .load,
    .ring .confirmed (.store 5 lateTransaction none), .ring .confirmed .publish,
    .collect, .load, .load, .read, .load, .load, .request (.register 0 1)]

/-- The statuses of the slot are taken after the subscription. -/
def Worker.takeStatuses : List WorkerAction :=
  [.request (.subscribe 0 (.signature .zero .confirmed)),
    .ring .processed (.store 5 (lateStatus .slotConfirmed) none), .ring .processed .publish,
    .ring .finalized (.store 5 lateTransaction none), .ring .finalized .publish,
    .ring .processed (.store 5 (lateStatus .slotFinalized) none), .ring .processed .publish,
    .collect, .load, .read, .load, .read, .load, .load, .load, .read, .load]

end Richat
