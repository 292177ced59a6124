import Richat.Pubsub.Server
import Richat.Pubsub.TrackerSpec

/-!
# No silent gap

The ledgers of a client are read off the events: what was produced for it, what of it found a place in
its queue, and what was taken from the queue. `NoSilentGap` relates them. The invariant of an open
connection (`OpenView`) says that the queue has what was sent and not yet taken, and that the client
knows the subscription of each of these unless it was unsubscribed meanwhile.
-/

namespace Richat

open Lib Subscriptions

def PubSubEvent.client : PubSubEvent → ClientId
  | produced event => event.client
  | unsubscribed client _ | response client _ | written client _ | skipped client _ | evicted client _
  | closed client _ | removed client => client

/-- The client whose ledgers have the event. -/
def PubSubEvent.ledger : PubSubEvent → Option ClientId
  | produced event => some event.client
  | written client _ | skipped client _ | evicted client _ | removed client => some client
  | unsubscribed .. | response .. | closed .. => none

/-- The notifications produced for the client. -/
def producedFor (client : ClientId) (events : List PubSubEvent) : List RpcNotification :=
  events.filterMap fun
    | .produced ⟨c, n, _⟩ => if c = client then some n else none
    | _ => none

/-- Those of them that found a place in its queue. -/
def sentTo (client : ClientId) (events : List PubSubEvent) : List RpcNotification :=
  events.filterMap fun
    | .produced ⟨c, n, sent⟩ => if c = client ∧ sent then some n else none
    | _ => none

/-- Those that it took from its queue, and wrote or skipped. -/
def readBy (client : ClientId) (events : List PubSubEvent) : List RpcNotification :=
  events.filterMap fun
    | .written c n | .skipped c n => if c = client then some n else none
    | _ => none

/-- The subscription was ended by the client after the notification was produced. -/
def Unsubscribed (events : List PubSubEvent) (client : ClientId) (n : RpcNotification) : Prop :=
  ∃ l₁ l₂ l₃, events = l₁ ++ .produced ⟨client, n, true⟩ :: l₂ ++
    .unsubscribed client n.subscriptionId :: l₃

/-- What each event of a client presupposes. -/
def Lawful (client : ClientId) (pre : List PubSubEvent) : PubSubEvent → Prop
  -- after a notification that found the queue full nothing more is produced
  | .produced event => event.client = client → ∀ n, .produced ⟨client, n, false⟩ ∉ pre
  | .written c n => c = client → (∀ n', .evicted client n' ∉ pre) ∧
      ∃ method, .response client (.subscribed n.subscriptionId method) ∈ pre
  | .skipped c n => c = client → (∀ n', .evicted client n' ∉ pre) ∧ Unsubscribed pre client n
  | .evicted c n => c = client → readBy client pre ++ [n] <+: sentTo client pre
  | .unsubscribed .. | .response .. | .closed .. | .removed _ => True

/-- **No silent gap** for a client. What it reads is what was sent to it, in order, and it skips only
notifications of subscriptions that it has ended since; it writes none before the response with the
subscription id. A notification that finds the queue full is the last one that is produced for it, the
tracker has dropped it, and its queue ends with `Lagged`; a body that is gone closes the connection. -/
structure PubSub.NoSilentGap (s : PubSub) (events : List PubSubEvent) (client : ClientId) : Prop where
  lawful : AtEach (Lawful client) events
  sent : sentTo client events <+: producedFor client events
  inOrder : readBy client events <+: sentTo client events
  full : ∀ n, .produced ⟨client, n, false⟩ ∈ events → s.tracker.subscriptions.clients.get? client = none ∧
    ∀ c, s.connections[client]? = some c → c.phase.isClosed = false →
      (s.tracker.channels client).queue.getLast? = some .lagged
  evicted : ∀ n, .evicted client n ∈ events →
    ∃ c, s.connections[client]? = some c ∧ c.phase = .closed .laggedMemory
  removed : .removed client ∈ events → s.tracker.subscriptions.clients.get? client = none

/-! ### The ledgers -/

section Ledgers

variable {client : ClientId} {events out : List PubSubEvent} {n : RpcNotification}

@[simp] theorem producedFor_append :
    producedFor client (events ++ out) = producedFor client events ++ producedFor client out :=
  List.filterMap_append

@[simp] theorem sentTo_append :
    sentTo client (events ++ out) = sentTo client events ++ sentTo client out := List.filterMap_append

@[simp] theorem readBy_append :
    readBy client (events ++ out) = readBy client events ++ readBy client out := List.filterMap_append

theorem PubSubEvent.client_of_ledger {x : PubSubEvent} (h : x.ledger = some client) :
    x.client = client := by
  cases x with
  | unsubscribed => cases h
  | response => cases h
  | closed => cases h
  | _ => exact Option.some.inj h

/-- The events change nothing in the ledgers of the client. -/
def Foreign (client : ClientId) (out : List PubSubEvent) : Prop := ∀ x ∈ out, x.ledger ≠ some client

theorem Foreign.of_client (h : ∀ x ∈ out, x.client ≠ client) : Foreign client out :=
  fun x hx hledger => h x hx (PubSubEvent.client_of_ledger hledger)

theorem Foreign.producedFor (h : Foreign client out) : producedFor client out = [] := by
  refine List.filterMap_eq_nil_iff.mpr fun x hx => ?_
  have hne := h x hx
  cases x with
  | produced e => exact if_neg fun hc => hne (congrArg some hc)
  | _ => rfl

theorem Foreign.sentTo (h : Foreign client out) : sentTo client out = [] := by
  refine List.filterMap_eq_nil_iff.mpr fun x hx => ?_
  have hne := h x hx
  cases x with
  | produced e => exact if_neg fun hand => hne (congrArg some hand.1)
  | _ => rfl

theorem Foreign.readBy (h : Foreign client out) : readBy client out = [] := by
  refine List.filterMap_eq_nil_iff.mpr fun x hx => ?_
  have hne := h x hx
  cases x with
  | written c n => exact if_neg fun hc => hne (congrArg some hc)
  | skipped c n => exact if_neg fun hc => hne (congrArg some hc)
  | _ => rfl

theorem Foreign.lawful (h : Foreign client out) (pre : List PubSubEvent) :
    AtEach (fun l x => Lawful client (pre ++ l) x) out := by
  intro l x post heq
  have hne := h x (heq ▸ List.mem_append_right _ List.mem_cons_self)
  cases x with
  | produced e => exact fun hc => absurd (congrArg some hc) hne
  | written c n => exact fun hc => absurd (congrArg some hc) hne
  | skipped c n => exact fun hc => absurd (congrArg some hc) hne
  | evicted c n => exact fun hc => absurd (congrArg some hc) hne
  | _ => trivial

theorem Foreign.mem_append (h : Foreign client out) {x : PubSubEvent} (hx : x.ledger = some client) :
    x ∈ events ++ out ↔ x ∈ events := by
  rw [List.mem_append, or_iff_left]
  exact fun hmem => h x hmem hx

theorem Unsubscribed.append (h : Unsubscribed events client n) (out : List PubSubEvent) :
    Unsubscribed (events ++ out) client n := by
  obtain ⟨l₁, l₂, l₃, rfl⟩ := h
  exact ⟨l₁, l₂, l₃ ++ out, by simp⟩

/-- The subscription ends now. -/
theorem Unsubscribed.of_mem (h : .produced ⟨client, n, true⟩ ∈ events) :
    Unsubscribed (events ++ [.unsubscribed client n.subscriptionId]) client n := by
  obtain ⟨l₁, l₂, rfl⟩ := List.append_of_mem h
  exact ⟨l₁, l₂, [], rfl⟩

theorem mem_sentTo : n ∈ sentTo client events ↔ .produced ⟨client, n, true⟩ ∈ events := by
  unfold sentTo
  rw [List.mem_filterMap]
  constructor
  · rintro ⟨x, hx, hn⟩
    split at hn
    · rename_i c n' sent
      split at hn
      · rename_i hand
        obtain ⟨rfl, rfl⟩ := hand
        cases hn
        exact hx
      · cases hn
    · cases hn
  · intro h
    exact ⟨_, h, by simp⟩

end Ledgers

/-! ### An open connection -/

/-- The subscription is over: its id was given away, and no client has it. -/
def Subscriptions.Dead (s : Subscriptions) (id : SubscriptionId) : Prop :=
  id < s.subscriptionId ∧ ∀ client, ¬ s.Listed client id

/-- The client has the subscription, or is about to write the response that says so. -/
def Connection.Knows (c : Connection) (id : SubscriptionId) : Prop :=
  c.subscriptions.contains id ∨ ∃ method, c.phase = .responding (.subscribed id method)

/-- A connection that is open: its queue has the notifications `l`, and `Lagged` when one was lost. -/
structure OpenView (events : List PubSubEvent) (t : Tracker) (client : ClientId) (c : Connection)
    (l : List RpcNotification) (tail : List ClientNotification) : Prop where
  queue : (t.channels client).queue = l.map .notification ++ tail
  opened : (t.channels client).closed = false
  flow : sentTo client events = readBy client events ++ l
  room : l.length + 1 ≤ (t.channels client).size
  tail : tail = [] ∧ (∀ n, .produced ⟨client, n, false⟩ ∉ events) ∨
    tail = [.lagged] ∧ t.subscriptions.clients.get? client = none
  heard : ∀ n ∈ l, c.Knows n.subscriptionId ∨ Unsubscribed events client n
  last : l.Pairwise fun n n' => n.isFinal → n'.subscriptionId ≠ n.subscriptionId
  dead : ∀ n ∈ l, n.isFinal → t.subscriptions.Dead n.subscriptionId
  listed : ∀ id, t.subscriptions.Listed client id → c.Knows id
  responses : ∀ id, c.subscriptions.contains id →
    ∃ method, .response client (.subscribed id method) ∈ events
  unsubscribed : ∀ id, c.phase = .responding (.unsubscribed id true) →
    ¬ t.subscriptions.Listed client id ∧
      ∀ n ∈ l, n.subscriptionId = id → Unsubscribed events client n
  request : c.request ≠ none → c.phase = .waiting
  unevicted : ∀ n, .evicted client n ∉ events

/-- A connection with its history. -/
structure ConnectionView (events : List PubSubEvent) (t : Tracker) (client : ClientId) (c : Connection) :
    Prop where
  lawful : AtEach (Lawful client) events
  sent : sentTo client events <+: producedFor client events
  inOrder : readBy client events <+: sentTo client events
  dropped : ∀ n, .produced ⟨client, n, false⟩ ∈ events → t.subscriptions.clients.get? client = none
  removed : .removed client ∈ events →
    t.subscriptions.clients.get? client = none ∧ c.phase.isClosed ∧ c.request = none
  evicted : ∀ n, .evicted client n ∈ events → c.phase = .closed .laggedMemory
  opened : c.phase.isClosed = false → ∃ l tail, OpenView events t client c l tail

/-- What the tracker does while it sends nothing to the client. -/
structure Quiet (t t' : Tracker) (client : ClientId) (c : Connection) : Prop where
  channel : t'.channels client = t.channels client
  gone : t.subscriptions.clients.get? client = none → t'.subscriptions.clients.get? client = none
  listed : c.phase.isClosed = false → ∀ id, t'.subscriptions.Listed client id →
    t.subscriptions.Listed client id ∨ c.Knows id
  unlisted : ∀ id, c.phase = .responding (.unsubscribed id true) →
    ¬ t.subscriptions.Listed client id → ¬ t'.subscriptions.Listed client id
  dead : ∀ id, t.subscriptions.Dead id → t'.subscriptions.Dead id

section Views

variable {hash : SubscribeConfig → ℕ} {events out : List PubSubEvent} {t t' : Tracker}
  {client : ClientId} {c c' : Connection} {l : List RpcNotification} {tail : List ClientNotification}

/-- The tracker does something else. -/
theorem OpenView.quiet (h : OpenView events t client c l tail) (hopen : c.phase.isClosed = false)
    (hquiet : Quiet t t' client c) (hout : Foreign client out) : OpenView (events ++ out) t' client c l tail where
  queue := by rw [hquiet.channel, h.queue]
  opened := by rw [hquiet.channel, h.opened]
  flow := by rw [sentTo_append, readBy_append, hout.sentTo, hout.readBy, List.append_nil,
    List.append_nil, h.flow]
  room := by
    rw [hquiet.channel]
    exact h.room
  tail := by
    rcases h.tail with ⟨hnil, hno⟩ | ⟨hlagged, hnone⟩
    · exact Or.inl ⟨hnil, fun n hn => hno n ((hout.mem_append rfl).mp hn)⟩
    · exact Or.inr ⟨hlagged, hquiet.gone hnone⟩
  heard := by
    intro n hn
    exact (h.heard n hn).imp_right fun hunsubscribed => hunsubscribed.append out
  last := h.last
  dead := fun n hn hfinal => hquiet.dead _ (h.dead n hn hfinal)
  listed := by
    intro id hid
    rcases hquiet.listed hopen id hid with hid | hid
    · exact h.listed id hid
    · exact hid
  responses := by
    intro id hid
    obtain ⟨method, hmem⟩ := h.responses id hid
    exact ⟨method, List.mem_append_left _ hmem⟩
  unsubscribed := by
    intro id hphase
    obtain ⟨hno, hall⟩ := h.unsubscribed id hphase
    exact ⟨hquiet.unlisted id hphase hno, fun n hn hid => (hall n hn hid).append out⟩
  request := h.request
  unevicted := fun n hn => h.unevicted n ((hout.mem_append rfl).mp hn)

theorem ConnectionView.quiet (h : ConnectionView events t client c) (hquiet : Quiet t t' client c)
    (hout : Foreign client out) : ConnectionView (events ++ out) t' client c where
  lawful := atEach_append.mpr ⟨h.lawful, hout.lawful events⟩
  sent := by
    rw [sentTo_append, producedFor_append, hout.sentTo, hout.producedFor, List.append_nil,
      List.append_nil]
    exact h.sent
  inOrder := by
    rw [sentTo_append, readBy_append, hout.sentTo, hout.readBy, List.append_nil, List.append_nil]
    exact h.inOrder
  dropped := fun n hn => hquiet.gone (h.dropped n ((hout.mem_append rfl).mp hn))
  removed := by
    intro hmem
    obtain ⟨hnone, hclosed⟩ := h.removed ((hout.mem_append rfl).mp hmem)
    exact ⟨hquiet.gone hnone, hclosed⟩
  evicted := fun n hn => h.evicted n ((hout.mem_append rfl).mp hn)
  opened := by
    intro hopen
    obtain ⟨l, tail, hview⟩ := h.opened hopen
    exact ⟨l, tail, hview.quiet hopen hquiet hout⟩

/-- A notification is sent to the client: it has its place in the queue, or `Lagged` has it. -/
theorem OpenView.produce (h : OpenView events t client c l tail) {n : RpcNotification} {sent : Bool}
    {o₁ o₂ : List PubSubEvent} (ho₁ : Foreign client o₁) (ho₂ : Foreign client o₂)
    (hsend : ClientSender.send (t.channels client) n = (t'.channels client, sent))
    (hthere : t.subscriptions.clients.get? client ≠ none)
    (hgone : sent = false → t'.subscriptions.clients.get? client = none)
    (hlisted : ∀ id, t'.subscriptions.Listed client id → t.subscriptions.Listed client id)
    (hdead : ∀ id, t.subscriptions.Dead id → t'.subscriptions.Dead id)
    (hknows : c.Knows n.subscriptionId) (hnew : ¬ t.subscriptions.Dead n.subscriptionId)
    (hfinal : n.isFinal → t'.subscriptions.Dead n.subscriptionId)
    (hother : ∀ id, c.phase = .responding (.unsubscribed id true) → n.subscriptionId ≠ id) :
    ∃ l tail, OpenView (events ++ (o₁ ++ .produced ⟨client, n, sent⟩ :: o₂)) t' client c l tail := by
  obtain ⟨htail, hno⟩ : tail = [] ∧ ∀ n, .produced ⟨client, n, false⟩ ∉ events :=
    h.tail.resolve_right fun hlagged => hthere hlagged.2
  subst htail
  have hqueue : (t.channels client).queue = l.map .notification := by rw [h.queue, List.append_nil]
  have hsize := h.room
  have hmem : ∀ x : PubSubEvent, x.ledger = some client → (x ∈ events ++ (o₁ ++ .produced ⟨client, n, sent⟩ :: o₂) ↔
      x ∈ events ∨ x = .produced ⟨client, n, sent⟩) := by
    intro x hx
    simp only [List.mem_append, List.mem_cons]
    have h₁ : x ∉ o₁ := fun hmem => ho₁ x hmem hx
    have h₂ : x ∉ o₂ := fun hmem => ho₂ x hmem hx
    tauto
  have hread : readBy client (o₁ ++ .produced ⟨client, n, sent⟩ :: o₂) = [] := by
    rw [readBy_append, ho₁.readBy, List.nil_append]
    exact ho₂.readBy
  have hresponses : ∀ id, c.subscriptions.contains id → ∃ method,
      .response client (.subscribed id method) ∈ events ++ (o₁ ++ .produced ⟨client, n, sent⟩ :: o₂) := by
    intro id hid
    obtain ⟨method, hmem⟩ := h.responses id hid
    exact ⟨method, List.mem_append_left _ hmem⟩
  have hunevicted : ∀ n', PubSubEvent.evicted client n' ∉
      events ++ (o₁ ++ .produced ⟨client, n, sent⟩ :: o₂) := by
    intro n' hn'
    rcases (hmem _ rfl).mp hn' with hn' | hn'
    · exact h.unevicted n' hn'
    · cases hn'
  unfold ClientSender.send at hsend
  split at hsend
  · rename_i hcapacity
    obtain ⟨hchannel, rfl⟩ := Prod.ext_iff.mp hsend
    -- the last place is for `Lagged`
    have hroom : (t.channels client).capacity ≠ 0 := by
      unfold Mpsc.capacity
      rw [hqueue, List.length_map]
      omega
    simp only [Mpsc.trySend, h.opened, hroom, Bool.false_eq_true, or_self, if_false] at hchannel
    have hsent : sentTo client (o₁ ++ .produced ⟨client, n, false⟩ :: o₂) = [] := by
      rw [sentTo_append, ho₁.sentTo, List.nil_append, sentTo, List.filterMap_cons_none (by simp)]
      exact ho₂.sentTo
    refine ⟨l, [.lagged], ⟨?_, ?_, ?_, ?_, Or.inr ⟨rfl, hgone rfl⟩, ?_, h.last, ?_, ?_, hresponses, ?_,
      h.request, hunevicted⟩⟩
    · rw [← hchannel, hqueue]
    · rw [← hchannel]
    · rw [sentTo_append, readBy_append, hsent, hread, List.append_nil, List.append_nil, h.flow]
    · rw [← hchannel]
      exact hsize
    · exact fun n' hn' => (h.heard n' hn').imp_right fun hunsubscribed => hunsubscribed.append _
    · exact fun n' hn' hfinal' => hdead _ (h.dead n' hn' hfinal')
    · exact fun id hid => h.listed id (hlisted id hid)
    · intro id hphase
      obtain ⟨hnot, hall⟩ := h.unsubscribed id hphase
      exact ⟨fun hid => hnot (hlisted id hid), fun n' hn' hid => (hall n' hn' hid).append _⟩
  · rename_i hcapacity
    obtain ⟨hchannel, rfl⟩ := Prod.ext_iff.mp hsend
    unfold Mpsc.capacity at hcapacity
    rw [hqueue, List.length_map] at hcapacity
    have hroom : (t.channels client).capacity ≠ 0 := by
      unfold Mpsc.capacity
      rw [hqueue, List.length_map]
      omega
    simp only [Mpsc.trySend, h.opened, hroom, Bool.false_eq_true, or_self, if_false] at hchannel
    have hsent : sentTo client (o₁ ++ .produced ⟨client, n, true⟩ :: o₂) = [n] := by
      rw [sentTo_append, ho₁.sentTo, List.nil_append, sentTo, List.filterMap_cons_some (b := n) (by simp)]
      exact congrArg (n :: ·) ho₂.sentTo
    refine ⟨l ++ [n], [], ⟨?_, ?_, ?_, ?_, Or.inl ⟨rfl, ?_⟩, ?_, ?_, ?_, ?_, hresponses, ?_,
      h.request, hunevicted⟩⟩
    · rw [← hchannel, hqueue]
      simp
    · rw [← hchannel]
    · rw [sentTo_append, readBy_append, hsent, hread, List.append_nil, h.flow, List.append_assoc]
    · rw [← hchannel, List.length_append, List.length_singleton]
      show l.length + 1 + 1 ≤ (t.channels client).size
      omega
    · intro n' hn'
      rcases (hmem _ rfl).mp hn' with hn' | hn'
      · exact hno n' hn'
      · cases hn'
    · intro n' hn'
      rcases List.mem_append.mp hn' with hn' | hn'
      · exact (h.heard n' hn').imp_right fun hunsubscribed => hunsubscribed.append _
      · rw [List.mem_singleton.mp hn']
        exact Or.inl hknows
    · refine List.pairwise_append.mpr ⟨h.last, List.pairwise_singleton .., fun n' hn' n'' hn'' hfinal' heq => ?_⟩
      rw [List.mem_singleton.mp hn''] at heq
      exact hnew (heq ▸ h.dead n' hn' hfinal')
    · intro n' hn' hfinal'
      rcases List.mem_append.mp hn' with hn' | hn'
      · exact hdead _ (h.dead n' hn' hfinal')
      · rw [List.mem_singleton.mp hn'] at hfinal' ⊢
        exact hfinal hfinal'
    · exact fun id hid => h.listed id (hlisted id hid)
    · intro id hphase
      obtain ⟨hnot, hall⟩ := h.unsubscribed id hphase
      refine ⟨fun hid => hnot (hlisted id hid), fun n' hn' hid => ?_⟩
      rcases List.mem_append.mp hn' with hn' | hn'
      · exact (hall n' hn' hid).append _
      · rw [List.mem_singleton.mp hn'] at hid
        exact absurd hid (hother id hphase)

theorem ConnectionView.produce (h : ConnectionView events t client c) {n : RpcNotification} {sent : Bool}
    {o₁ o₂ : List PubSubEvent} (ho₁ : Foreign client o₁) (ho₂ : Foreign client o₂)
    (hsend : ClientSender.send (t.channels client) n = (t'.channels client, sent))
    (hthere : t.subscriptions.clients.get? client ≠ none)
    (hgone : sent = false → t'.subscriptions.clients.get? client = none)
    (hlisted : ∀ id, t'.subscriptions.Listed client id → t.subscriptions.Listed client id)
    (hdead : ∀ id, t.subscriptions.Dead id → t'.subscriptions.Dead id)
    (hknows : c.phase.isClosed = false → c.Knows n.subscriptionId)
    (hnew : ¬ t.subscriptions.Dead n.subscriptionId)
    (hfinal : n.isFinal → t'.subscriptions.Dead n.subscriptionId)
    (hother : ∀ id, c.phase = .responding (.unsubscribed id true) → n.subscriptionId ≠ id) :
    ConnectionView (events ++ (o₁ ++ .produced ⟨client, n, sent⟩ :: o₂)) t' client c := by
  have hno : ∀ n, .produced ⟨client, n, false⟩ ∉ events := fun n hn => hthere (h.dropped n hn)
  have hmem : ∀ x : PubSubEvent, x.ledger = some client →
      x ∈ events ++ (o₁ ++ .produced ⟨client, n, sent⟩ :: o₂) →
      x ∈ events ∨ x = .produced ⟨client, n, sent⟩ := by
    intro x hx
    simp only [List.mem_append, List.mem_cons]
    have h₁ : x ∉ o₁ := fun hmem => ho₁ x hmem hx
    have h₂ : x ∉ o₂ := fun hmem => ho₂ x hmem hx
    tauto
  have hproduced : producedFor client (o₁ ++ .produced ⟨client, n, sent⟩ :: o₂) = [n] := by
    rw [producedFor_append, ho₁.producedFor, List.nil_append, producedFor,
      List.filterMap_cons_some (b := n) (by simp)]
    exact congrArg (n :: ·) ho₂.producedFor
  have hsent : sentTo client (o₁ ++ .produced ⟨client, n, sent⟩ :: o₂) = if sent then [n] else [] := by
    rw [sentTo_append, ho₁.sentTo, List.nil_append, sentTo]
    cases sent with
    | true =>
      rw [List.filterMap_cons_some (b := n) (by simp)]
      exact congrArg (n :: ·) ho₂.sentTo
    | false =>
      rw [List.filterMap_cons_none (by simp)]
      exact ho₂.sentTo
  have hread : readBy client (o₁ ++ .produced ⟨client, n, sent⟩ :: o₂) = [] := by
    rw [readBy_append, ho₁.readBy, List.nil_append]
    exact ho₂.readBy
  -- everything that was produced before was sent
  have hall : producedFor client events = sentTo client events := by
    refine List.filterMap_congr fun x hx => ?_
    cases x with
    | produced e =>
      obtain ⟨d, n', sent'⟩ := e
      by_cases hd : d = client
      · subst hd
        cases sent' with
        | true => simp
        | false => exact absurd hx (hno n')
      · simp [hd]
    | _ => rfl
  refine ⟨?_, ?_, ?_, ?_, ?_, ?_, fun hopen => ?_⟩
  · refine atEach_append.mpr ⟨h.lawful, ?_⟩
    rw [List.append_cons]
    refine atEach_append.mpr ⟨atEach_append.mpr ⟨ho₁.lawful events, atEach_singleton.mpr ?_⟩, ?_⟩
    · intro _ n' hn'
      rcases List.mem_append.mp hn' with hn' | hn'
      · exact hno n' hn'
      · rw [List.append_nil] at hn'
        exact ho₁ _ hn' rfl
    · have hlawful := ho₂.lawful (events ++ (o₁ ++ [.produced ⟨client, n, sent⟩]))
      simpa only [List.append_assoc] using hlawful
  · rw [sentTo_append, producedFor_append, hsent, hproduced, hall]
    cases sent with
    | true => exact List.prefix_rfl
    | false => exact (List.prefix_append_right_inj _).mpr List.nil_prefix
  · rw [sentTo_append, readBy_append, hread, List.append_nil]
    exact h.inOrder.trans (List.prefix_append ..)
  · intro n' hn'
    rcases hmem _ rfl hn' with hn' | hn'
    · exact absurd hn' (hno n')
    · cases hn'
      exact hgone rfl
  · intro hremoved
    rcases hmem _ rfl hremoved with hremoved | hremoved
    · exact absurd (h.removed hremoved).1 hthere
    · cases hremoved
  · intro n' hn'
    rcases hmem _ rfl hn' with hn' | hn'
    · exact h.evicted n' hn'
    · cases hn'
  · obtain ⟨l, tail, hview⟩ := h.opened hopen
    exact hview.produce ho₁ ho₂ hsend hthere hgone hlisted hdead (hknows hopen) hnew hfinal hother

/-- The write loop gets the response that it waits for. -/
theorem OpenView.waiting (h : OpenView events t client c l tail) (hphase : c.phase = .waiting)
    {response : ConnectionResponse}
    (hunsubscribed : ∀ id, response = .unsubscribed id true →
      ¬ t.subscriptions.Listed client id ∧
        ∀ n ∈ l, n.subscriptionId = id → Unsubscribed events client n) :
    OpenView events t client ⟨.responding response, none, c.subscriptions⟩ l tail where
  queue := h.queue
  opened := h.opened
  flow := h.flow
  room := h.room
  tail := h.tail
  heard := by
    intro n hn
    refine (h.heard n hn).imp_left ?_
    rintro (hid | ⟨method, hresponding⟩)
    · exact Or.inl hid
    · rw [hphase] at hresponding
      cases hresponding
  last := h.last
  dead := h.dead
  listed := by
    intro id hid
    rcases h.listed id hid with hid | ⟨method, hresponding⟩
    · exact Or.inl hid
    · rw [hphase] at hresponding
      cases hresponding
  responses := h.responses
  unsubscribed := by
    intro id hresponse
    exact hunsubscribed id (ConnectionPhase.responding.inj hresponse)
  request := fun hsome => absurd rfl hsome
  unevicted := h.unevicted

/-- A request is made. -/
theorem OpenView.ask (h : OpenView events t client c l tail) (hphase : c.phase = .select)
    (request : ConnectionRequest) :
    OpenView events t client ⟨.waiting, some request, c.subscriptions⟩ l tail where
  queue := h.queue
  opened := h.opened
  flow := h.flow
  room := h.room
  tail := h.tail
  heard := by
    intro n hn
    refine (h.heard n hn).imp_left ?_
    rintro (hid | ⟨method, hresponding⟩)
    · exact Or.inl hid
    · rw [hphase] at hresponding
      cases hresponding
  last := h.last
  dead := h.dead
  listed := by
    intro id hid
    rcases h.listed id hid with hid | ⟨method, hresponding⟩
    · exact Or.inl hid
    · rw [hphase] at hresponding
      cases hresponding
  responses := h.responses
  unsubscribed := by
    intro id hresponse
    cases hresponse
  request := fun _ => rfl
  unevicted := h.unevicted

/-- A response is written. -/
theorem OpenView.respond (h : OpenView events t client c l tail) {response : ConnectionResponse}
    (hphase : c.phase = .responding response) :
    OpenView (events ++ [.response client response]) t client
      ⟨.select, c.request, ConnectionResponse.apply c.subscriptions response⟩ l tail := by
  have hmem : ∀ x, (∀ r, x ≠ .response client r) → x ∈ events ++ [.response client response] →
      x ∈ events := by
    intro x hx hmem
    exact (List.mem_append.mp hmem).resolve_right fun hlast => hx _ (List.mem_singleton.mp hlast)
  have hknows : ∀ id, c.Knows id → (∀ id', response = .unsubscribed id' true → id ≠ id') →
      (ConnectionResponse.apply c.subscriptions response).contains id := by
    intro id hid hne
    cases response with
    | subscribed id' method =>
      rcases hid with hid | ⟨method', hresponding⟩
      · simp [ConnectionResponse.apply, hid]
      · rw [hphase] at hresponding
        cases hresponding
        simp [ConnectionResponse.apply]
    | unsubscribed id' removed =>
      rcases hid with hid | ⟨method', hresponding⟩
      · cases removed with
        | true => simp [ConnectionResponse.apply, hid, hne id' rfl]
        | false => simpa [ConnectionResponse.apply] using hid
      · rw [hphase] at hresponding
        cases hresponding
  refine ⟨h.queue, h.opened, ?_, h.room, ?_, fun n hn => ?_, h.last, h.dead, fun id hid => ?_,
    fun id hid => ?_, fun id hresponse => ?_, fun hsome => ?_, fun n hn => ?_⟩
  · rw [sentTo_append, readBy_append, h.flow]
    simp [sentTo, readBy]
  · refine h.tail.imp_left ?_
    rintro ⟨hnil, hno⟩
    exact ⟨hnil, fun n hn => hno n (hmem _ (by simp) hn)⟩
  · by_cases hne : ∀ id', response = .unsubscribed id' true → n.subscriptionId ≠ id'
    · rcases h.heard n hn with hid | hunsubscribed
      · exact Or.inl (Or.inl (hknows _ hid hne))
      · exact Or.inr (hunsubscribed.append _)
    · push Not at hne
      obtain ⟨id', rfl, hid⟩ := hne
      exact Or.inr (((h.unsubscribed id' hphase).2 n hn hid).append _)
  · refine Or.inl (hknows id (h.listed id hid) ?_)
    rintro id' rfl rfl
    exact (h.unsubscribed id hphase).1 hid
  · cases response with
    | subscribed id' method =>
      simp only [ConnectionResponse.apply, SortedMap.contains_insert, Bool.or_eq_true,
        decide_eq_true_eq] at hid
      rcases hid with rfl | hid
      · exact ⟨method, by simp⟩
      · obtain ⟨method', hmem'⟩ := h.responses id hid
        exact ⟨method', List.mem_append_left _ hmem'⟩
    | unsubscribed id' removed =>
      have hid' : c.subscriptions.contains id := by
        cases removed with
        | true =>
          simp only [ConnectionResponse.apply, if_true, SortedMap.contains_erase, Bool.and_eq_true] at hid
          exact hid.2
        | false => simpa [ConnectionResponse.apply] using hid
      obtain ⟨method', hmem'⟩ := h.responses id hid'
      exact ⟨method', List.mem_append_left _ hmem'⟩
  · cases hresponse
  · have hwaiting := h.request hsome
    rw [hphase] at hwaiting
    cases hwaiting
  · exact h.unevicted n (hmem _ (by simp) hn)

/-- The first notification is taken from the queue. -/
theorem OpenView.take {n : RpcNotification} (h : OpenView events t client c (n :: l) tail)
    (hphase : c.phase = .select) {x : PubSubEvent} (hread : readBy client [x] = [n])
    (hsent : sentTo client [x] = []) (hproduced : ∀ n, x ≠ .produced ⟨client, n, false⟩)
    (hevicted : ∀ n, x ≠ .evicted client n) (hsubs : t'.subscriptions = t.subscriptions)
    (hchannel : t'.channels client = (t.channels client).recv) {subscriptions : IntMap SubscribeMethod}
    (hless : ∀ id, subscriptions.contains id → c.subscriptions.contains id)
    (hkept : ∀ id, c.subscriptions.contains id → (n.isFinal → id ≠ n.subscriptionId) →
      subscriptions.contains id) :
    OpenView (events ++ [x]) t' client { c with subscriptions } l tail := by
  have hknows : ∀ id, c.Knows id → c.subscriptions.contains id := by
    rintro id (hid | ⟨method, hresponding⟩)
    · exact hid
    · rw [hphase] at hresponding
      cases hresponding
  obtain ⟨hhead, hlast⟩ := List.pairwise_cons.mp h.last
  refine ⟨?_, ?_, ?_, ?_, ?_, fun n' hn' => ?_, hlast, ?_, fun id hid => ?_, fun id hid => ?_,
    fun id hresponse => ?_, h.request, fun n' hn' => ?_⟩
  · rw [hchannel, Mpsc.recv, h.queue]
    rfl
  · rw [hchannel]
    exact h.opened
  · rw [sentTo_append, readBy_append, hread, hsent, List.append_nil, h.flow, List.append_assoc]
    rfl
  · rw [hchannel]
    exact (Nat.le_succ _).trans h.room
  · rw [hsubs]
    refine h.tail.imp_left ?_
    rintro ⟨hnil, hno⟩
    refine ⟨hnil, fun n' hn' => ?_⟩
    rcases List.mem_append.mp hn' with hn' | hn'
    · exact hno n' hn'
    · exact hproduced n' (List.mem_singleton.mp hn').symm
  · rcases h.heard n' (List.mem_cons_of_mem _ hn') with hid | hunsubscribed
    · exact Or.inl (Or.inl (hkept _ (hknows _ hid) (hhead n' hn')))
    · exact Or.inr (hunsubscribed.append _)
  · rw [hsubs]
    exact fun n' hn' => h.dead n' (List.mem_cons_of_mem _ hn')
  · rw [hsubs] at hid
    refine Or.inl (hkept id (hknows id (h.listed id hid)) ?_)
    rintro hfinal rfl
    exact (h.dead n List.mem_cons_self hfinal).2 client hid
  · obtain ⟨method, hmem⟩ := h.responses id (hless id hid)
    exact ⟨method, List.mem_append_left _ hmem⟩
  · rw [hphase] at hresponse
    cases hresponse
  · rcases List.mem_append.mp hn' with hn' | hn'
    · exact h.unevicted n' hn'
    · exact hevicted n' (List.mem_singleton.mp hn').symm

/-- The write loop has written or skipped a notification. -/
theorem ConnectionView.take {n : RpcNotification} (h : ConnectionView events t client c)
    (hview : OpenView events t client c (n :: l) tail) (hphase : c.phase = .select)
    {x : PubSubEvent} (hx : x = .written client n ∧ c.subscriptions.contains n.subscriptionId ∨
      x = .skipped client n ∧ c.subscriptions.contains n.subscriptionId = false)
    (hsubs : t'.subscriptions = t.subscriptions)
    (hchannel : t'.channels client = (t.channels client).recv) {subscriptions : IntMap SubscribeMethod}
    (hless : ∀ id, subscriptions.contains id → c.subscriptions.contains id)
    (hkept : ∀ id, c.subscriptions.contains id → (n.isFinal → id ≠ n.subscriptionId) →
      subscriptions.contains id) :
    ConnectionView (events ++ [x]) t' client { c with subscriptions } := by
  have hread : readBy client [x] = [n] := by
    rcases hx with ⟨rfl, -⟩ | ⟨rfl, -⟩ <;> simp [readBy]
  have hsent : sentTo client [x] = [] := by rcases hx with ⟨rfl, -⟩ | ⟨rfl, -⟩ <;> rfl
  have hproducedFor : producedFor client [x] = [] := by rcases hx with ⟨rfl, -⟩ | ⟨rfl, -⟩ <;> rfl
  have hne : ∀ y ∈ events ++ [x], (∀ n, y ≠ .written client n) → (∀ n, y ≠ .skipped client n) →
      y ∈ events := by
    intro y hy hwritten hskipped
    refine (List.mem_append.mp hy).resolve_right fun hlast => ?_
    rw [List.mem_singleton.mp hlast] at hwritten hskipped
    rcases hx with ⟨rfl, -⟩ | ⟨rfl, -⟩
    · exact hwritten n rfl
    · exact hskipped n rfl
  refine ⟨atEach_append.mpr ⟨h.lawful, atEach_singleton.mpr ?_⟩, ?_, ?_, fun n' hn' => ?_,
    fun hremoved => ?_, fun n' hn' => ?_, fun _ => ⟨l, tail, ?_⟩⟩
  · rw [List.append_nil]
    rcases hx with ⟨rfl, hcontains⟩ | ⟨rfl, hcontains⟩
    · exact fun _ => ⟨hview.unevicted, hview.responses _ hcontains⟩
    · refine fun _ => ⟨hview.unevicted, (hview.heard n List.mem_cons_self).resolve_left ?_⟩
      rintro (hid | ⟨method, hresponding⟩)
      · rw [hcontains] at hid
        cases hid
      · rw [hphase] at hresponding
        cases hresponding
  · rw [sentTo_append, producedFor_append, hsent, hproducedFor, List.append_nil, List.append_nil]
    exact h.sent
  · rw [sentTo_append, readBy_append, hsent, hread, List.append_nil, hview.flow]
    exact ⟨l, by rw [List.append_assoc]; rfl⟩
  · rw [hsubs]
    exact h.dropped n' (hne _ hn' (by simp) (by simp))
  · rw [hsubs]
    exact h.removed (hne _ hremoved (by simp) (by simp))
  · exact h.evicted n' (hne _ hn' (by simp) (by simp))
  · refine hview.take hphase hread hsent ?_ ?_ hsubs hchannel hless hkept
    · rintro n' rfl
      rcases hx with ⟨hx, -⟩ | ⟨hx, -⟩ <;> cases hx
    · rintro n' rfl
      rcases hx with ⟨hx, -⟩ | ⟨hx, -⟩ <;> cases hx

/-- The write loop ends: the client goes away, or it has read `Lagged`. -/
theorem ConnectionView.close (h : ConnectionView events t client c) (hopen : c.phase.isClosed = false)
    (hsubs : t'.subscriptions = t.subscriptions) (reason : CloseReason) :
    ConnectionView (events ++ [.closed client reason]) t' client { c with phase := .closed reason } := by
  have hmem : ∀ x, (∀ r, x ≠ .closed client r) → x ∈ events ++ [.closed client reason] → x ∈ events :=
    fun x hx hmem => (List.mem_append.mp hmem).resolve_right fun hlast =>
      hx _ (List.mem_singleton.mp hlast)
  refine ⟨atEach_append.mpr ⟨h.lawful, atEach_singleton.mpr trivial⟩, ?_, ?_, fun n hn => ?_,
    fun hremoved => ?_, fun n hn => ?_, fun hclosed => by cases hclosed⟩
  · rw [sentTo_append, producedFor_append]
    simpa [sentTo, producedFor] using h.sent
  · rw [sentTo_append, readBy_append]
    simpa [sentTo, readBy] using h.inOrder
  · rw [hsubs]
    exact h.dropped n (hmem _ (by simp) hn)
  · have hclosed := (h.removed (hmem _ (by simp) hremoved)).2.1
    rw [hopen] at hclosed
    cases hclosed
  · have hclosed := h.evicted n (hmem _ (by simp) hn)
    rw [hclosed] at hopen
    cases hopen

/-- The body of the first notification is gone. -/
theorem ConnectionView.evict {n : RpcNotification} (h : ConnectionView events t client c)
    (hview : OpenView events t client c (n :: l) tail) (hopen : c.phase.isClosed = false)
    (hsubs : t'.subscriptions = t.subscriptions) (subscriptions : IntMap SubscribeMethod) :
    ConnectionView (events ++ [.evicted client n, .closed client .laggedMemory]) t' client
      ⟨.closed .laggedMemory, c.request, subscriptions⟩ := by
  have hmem : ∀ x, (∀ n, x ≠ .evicted client n) → (∀ r, x ≠ .closed client r) →
      x ∈ events ++ [.evicted client n, .closed client .laggedMemory] → x ∈ events := by
    intro x hevicted hclosed hmem
    refine (List.mem_append.mp hmem).resolve_right fun hlast => ?_
    rcases List.mem_pair.mp hlast with rfl | rfl
    · exact hevicted n rfl
    · exact hclosed _ rfl
  refine ⟨?_, ?_, ?_, fun n hn => ?_, fun hremoved => ?_, fun _ _ => rfl, fun hclosed => by cases hclosed⟩
  · rw [List.append_cons]
    refine atEach_append.mpr ⟨atEach_append.mpr ⟨h.lawful, atEach_singleton.mpr ?_⟩,
      atEach_singleton.mpr trivial⟩
    intro _
    rw [List.append_nil, hview.flow]
    exact ⟨l, by rw [List.append_assoc]; rfl⟩
  · rw [sentTo_append, producedFor_append]
    simpa [sentTo, producedFor] using h.sent
  · rw [sentTo_append, readBy_append]
    simpa [sentTo, readBy] using h.inOrder
  · rw [hsubs]
    exact h.dropped n (hmem _ (by simp) (by simp) hn)
  · have hclosed := (h.removed (hmem _ (by simp) (by simp) hremoved)).2.1
    rw [hopen] at hclosed
    cases hclosed

end Views

/-! ### What the tracker leaves alone -/

section Leaves

variable {hash : SubscribeConfig → ℕ} {s s' : Subscriptions} {t t' : Tracker} {client : ClientId}
  {c : Connection} {id : SubscriptionId}

theorem Subscriptions.Changes.gone {clients : ClientId → Prop} {links : ClientId → SubscriptionId → Prop}
    (h : Changes s s' clients links) (hnone : s.clients.get? client = none) :
    s'.clients.get? client = none := by
  cases hget : s'.clients.get? client with
  | none => rfl
  | some info =>
    obtain ⟨-, info', hget', -⟩ := (h.sender client info.sender).mp ⟨info, hget, rfl⟩
    rw [hnone] at hget'
    cases hget'

theorem Subscriptions.Changes.dead {clients : ClientId → Prop} {links : ClientId → SubscriptionId → Prop}
    (h : Changes s s' clients links) (hdead : s.Dead id) : s'.Dead id :=
  ⟨h.subscriptionId ▸ hdead.1, fun client hlisted => hdead.2 client ((h.listed client id).mp hlisted).1⟩

theorem Subscriptions.Changes.removed {clients : ClientId → Prop}
    {links : ClientId → SubscriptionId → Prop} (h : Changes s s' clients links) (hno : ¬ clients client) :
    s'.clients.get? client = none := by
  cases hget : s'.clients.get? client with
  | none => rfl
  | some info => exact absurd ((h.sender client info.sender).mp ⟨info, hget, rfl⟩).1 hno

theorem Subscriptions.Adds.gone {adder : ClientId} (h : Adds s s' adder id)
    (hnone : s.clients.get? client = none) : s'.clients.get? client = none := by
  cases hget : s'.clients.get? client with
  | none => rfl
  | some info =>
    obtain ⟨info', hget', -⟩ := (h.sender client info.sender).mp ⟨info, hget, rfl⟩
    rw [hnone] at hget'
    cases hget'

theorem Subscriptions.Adds.dead {adder : ClientId} (h : Adds s s' adder id)
    (hid : id = s.subscriptionId ∨ ∃ c, s.Listed c id) {j : SubscriptionId} (hdead : s.Dead j) :
    s'.Dead j := by
  refine ⟨hdead.1.trans_le h.subscriptionId, fun c hlisted => ?_⟩
  rcases (h.listed c j).mp hlisted with hlisted | ⟨-, rfl⟩
  · exact hdead.2 c hlisted
  · rcases hid with rfl | ⟨c', hlisted'⟩
    · exact lt_irrefl _ hdead.1
    · exact hdead.2 c' hlisted'

theorem Subscriptions.dead_skip {n : ℕ} (hn : s.subscriptionId ≤ n) (hdead : s.Dead id) :
    Dead { s with subscriptionId := n } id :=
  ⟨hdead.1.trans_le hn, hdead.2⟩

/-- Only the queues of other clients change. -/
theorem Quiet.of_channel (hsubs : t'.subscriptions = t.subscriptions)
    (hchannel : t'.channels client = t.channels client) : Quiet t t' client c := by
  refine ⟨hchannel, ?_, ?_, ?_, ?_⟩ <;> rw [hsubs]
  · exact id
  · exact fun _ _ => Or.inl
  · exact fun _ _ => id
  · exact fun _ => id

/-- An id may be skipped as well. -/
theorem Quiet.of_changes {n : ℕ} (hn : t.subscriptions.subscriptionId ≤ n) {clients : ClientId → Prop}
    {links : ClientId → SubscriptionId → Prop}
    (h : Changes { t.subscriptions with subscriptionId := n } t'.subscriptions clients links)
    (hchannel : t'.channels client = t.channels client) : Quiet t t' client c :=
  ⟨hchannel, h.gone, fun _ j hj => Or.inl ((h.listed client j).mp hj).1,
    fun j _ hno hj => hno ((h.listed client j).mp hj).1, fun _ hdead => h.dead (dead_skip hn hdead)⟩

theorem Quiet.of_adds {adder : ClientId} (h : Adds t.subscriptions t'.subscriptions adder id)
    (hid : id = t.subscriptions.subscriptionId ∨ ∃ c, t.subscriptions.Listed c id)
    (hchannel : t'.channels client = t.channels client)
    (hknows : client = adder → c.phase.isClosed = false → c.Knows id)
    (hother : client = adder → ∀ j, c.phase ≠ .responding (.unsubscribed j true)) :
    Quiet t t' client c := by
  refine ⟨hchannel, h.gone, fun hopen j hj => ?_, fun j hphase hno hj => ?_, fun _ => h.dead hid⟩
  · rcases (h.listed client j).mp hj with hj | ⟨rfl, rfl⟩
    · exact Or.inl hj
    · exact Or.inr (hknows rfl hopen)
  · rcases (h.listed client j).mp hj with hj | ⟨rfl, rfl⟩
    · exact hno hj
    · exact hother rfl _ hphase

end Leaves

/-! ### Requests and responses -/

section Requests

variable {events : List PubSubEvent} {t : Tracker} {client : ClientId} {c : Connection}

/-- A request is made. -/
theorem ConnectionView.ask (h : ConnectionView events t client c) (hphase : c.phase = .select)
    (request : ConnectionRequest) :
    ConnectionView events t client ⟨.waiting, some request, c.subscriptions⟩ where
  lawful := h.lawful
  sent := h.sent
  inOrder := h.inOrder
  dropped := h.dropped
  removed := by
    intro hremoved
    have hclosed := (h.removed hremoved).2.1
    rw [hphase] at hclosed
    cases hclosed
  evicted := by
    intro n hn
    have hclosed := h.evicted n hn
    rw [hphase] at hclosed
    cases hclosed
  opened := by
    intro _
    obtain ⟨l, tail, hview⟩ := h.opened (by rw [hphase]; rfl)
    exact ⟨l, tail, hview.ask hphase request⟩

/-- The tracker has answered. -/
def Connection.answered (c : Connection) (response : ConnectionResponse) : Connection :=
  match c.phase with
  | .waiting => ⟨.responding response, none, c.subscriptions⟩
  | _ => { c with request := none }

/-- A write loop that is not closed waits for its request. -/
theorem ConnectionView.waiting (h : ConnectionView events t client c) (hsome : c.request ≠ none) :
    c.phase = .waiting ∨ ∃ reason, c.phase = .closed reason := by
  cases hphase : c.phase with
  | closed reason => exact Or.inr ⟨reason, rfl⟩
  | _ =>
    obtain ⟨l, tail, hview⟩ := h.opened (by rw [hphase]; rfl)
    exact Or.inl (hphase.symm.trans (hview.request hsome))

theorem ConnectionView.answered (h : ConnectionView events t client c) (hsome : c.request ≠ none)
    {response : ConnectionResponse}
    (hunsubscribed : ∀ l tail, OpenView events t client c l tail →
      ∀ id, response = .unsubscribed id true → ¬ t.subscriptions.Listed client id ∧
        ∀ n ∈ l, n.subscriptionId = id → Unsubscribed events client n) :
    ConnectionView events t client (c.answered response) := by
  have hnot : .removed client ∉ events := fun hremoved => hsome (h.removed hremoved).2.2
  rcases h.waiting hsome with hphase | ⟨reason, hphase⟩
  · have hanswered : c.answered response = ⟨.responding response, none, c.subscriptions⟩ := by
      rw [Connection.answered, hphase]
    rw [hanswered]
    refine ⟨h.lawful, h.sent, h.inOrder, h.dropped, fun hremoved => absurd hremoved hnot, ?_, fun _ => ?_⟩
    · intro n hn
      have hclosed := h.evicted n hn
      rw [hphase] at hclosed
      cases hclosed
    · obtain ⟨l, tail, hview⟩ := h.opened (by rw [hphase]; rfl)
      exact ⟨l, tail, hview.waiting hphase (hunsubscribed l tail hview)⟩
  · have hanswered : c.answered response = { c with request := none } := by
      rw [Connection.answered, hphase]
    rw [hanswered]
    refine ⟨h.lawful, h.sent, h.inOrder, h.dropped, fun hremoved => absurd hremoved hnot, h.evicted,
      fun hopen => ?_⟩
    rw [show ({ c with request := none } : Connection).phase = .closed reason from hphase] at hopen
    cases hopen

/-- A response is written. -/
theorem ConnectionView.respond (h : ConnectionView events t client c) {response : ConnectionResponse}
    (hphase : c.phase = .responding response) :
    ConnectionView (events ++ [.response client response]) t client
      ⟨.select, c.request, ConnectionResponse.apply c.subscriptions response⟩ := by
  have hout : Foreign client [.response client response] := by simp [Foreign, PubSubEvent.ledger]
  have hquiet : Quiet t t client c := .of_channel rfl rfl
  have hview := h.quiet hquiet hout
  refine ⟨hview.lawful, hview.sent, hview.inOrder, hview.dropped, fun hremoved => ?_, fun n hn => ?_,
    fun _ => ?_⟩
  · have hclosed := (hview.removed hremoved).2.1
    rw [hphase] at hclosed
    cases hclosed
  · have hclosed := hview.evicted n hn
    rw [hphase] at hclosed
    cases hclosed
  · obtain ⟨l, tail, hopen⟩ := h.opened (by rw [hphase]; rfl)
    exact ⟨l, tail, hopen.respond hphase⟩

end Requests

/-! ### The whole system -/

structure PubSubInv (hash : SubscribeConfig → ℕ) (events : List PubSubEvent) (s : PubSub) : Prop where
  inv : Inv hash s.tracker.subscriptions
  len : s.tracker.channelsLen = s.connections.length
  sender : ∀ c info, s.tracker.subscriptions.clients.get? c = some info →
    info.sender = c ∧ c < s.connections.length
  view : ∀ client c, s.connections[client]? = some c → ConnectionView events s.tracker client c
  fresh : ∀ x ∈ events, x.client < s.connections.length

namespace PubSubInv

variable {hash : SubscribeConfig → ℕ} {encode : SubscriptionId → CachedSignature → String}
  {events out : List PubSubEvent} {s s' : PubSub} {client : ClientId} {c c' : Connection}

theorem new (maxCount maxBytes : ℕ) : PubSubInv hash [] (.new maxCount maxBytes) where
  inv := default_inv
  len := rfl
  sender := by
    intro c info hget
    cases hget
  view := by
    intro client c hget
    cases hget
  fresh := by simp

/-- The tracker does something, with what it is for each client. -/
theorem tracker (h : PubSubInv hash events s) {t' : Tracker} (hinv : Inv hash t'.subscriptions)
    (hlen : t'.channelsLen = s.tracker.channelsLen)
    (hsender : ∀ d info, t'.subscriptions.clients.get? d = some info →
      ∃ info', s.tracker.subscriptions.clients.get? d = some info' ∧ info.sender = info'.sender)
    (hout : ∀ x ∈ out, x.client < s.connections.length)
    (hview : ∀ d c, s.connections[d]? = some c → ConnectionView (events ++ out) t' d c) :
    PubSubInv hash (events ++ out) { s with tracker := t' } where
  inv := hinv
  len := hlen.trans h.len
  sender := by
    intro d info hd
    obtain ⟨info', hd', hsame⟩ := hsender d info hd
    rw [hsame]
    exact h.sender d info' hd'
  view := hview
  fresh := by
    intro x hx
    rcases List.mem_append.mp hx with hx | hx
    · exact h.fresh x hx
    · exact hout x hx

/-- One client acts; the tracker is quiet for the others. -/
theorem act (h : PubSubInv hash events s) (hget : s.connections[client]? = some c)
    {t' : Tracker} (hinv : Inv hash t'.subscriptions) (hlen : t'.channelsLen = s.tracker.channelsLen)
    (hsender : ∀ d info, t'.subscriptions.clients.get? d = some info →
      ∃ info', s.tracker.subscriptions.clients.get? d = some info' ∧ info.sender = info'.sender)
    (hout : ∀ x ∈ out, x.client = client)
    (hquiet : ∀ d c, d ≠ client → Quiet s.tracker t' d c)
    (hview : ConnectionView (events ++ out) t' client c') :
    PubSubInv hash (events ++ out) ({ s with tracker := t' }.setConnection client c') where
  inv := hinv
  len := by
    show t'.channelsLen = (s.connections.set client c').length
    rw [hlen, h.len, List.length_set]
  sender := by
    intro d info hd
    obtain ⟨info', hd', hsame⟩ := hsender d info hd
    show info.sender = d ∧ d < (s.connections.set client c').length
    rw [hsame, List.length_set]
    exact h.sender d info' hd'
  view := by
    intro d c₁ hd
    simp only [PubSub.setConnection, List.getElem?_set] at hd
    split at hd
    · rename_i heq
      split at hd
      · cases hd
        exact heq ▸ hview
      · cases hd
    · rename_i hne
      exact (h.view d c₁ hd).quiet (hquiet d c₁ (Ne.symm hne))
        (.of_client fun x hx hc => hne ((hout x hx).symm.trans hc))
  fresh := by
    intro x hx
    show x.client < (s.connections.set client c').length
    rw [List.length_set]
    rcases List.mem_append.mp hx with hx | hx
    · exact h.fresh x hx
    · rw [hout x hx]
      exact (List.getElem?_eq_some_iff.mp hget).1

/-- One client acts, and the tracker keeps its subscriptions. -/
theorem act_channel (h : PubSubInv hash events s) (hget : s.connections[client]? = some c)
    {t' : Tracker} (hsubs : t'.subscriptions = s.tracker.subscriptions)
    (hlen : t'.channelsLen = s.tracker.channelsLen)
    (hchannels : ∀ d, d ≠ client → t'.channels d = s.tracker.channels d)
    (hout : ∀ x ∈ out, x.client = client) (hview : ConnectionView (events ++ out) t' client c') :
    PubSubInv hash (events ++ out) ({ s with tracker := t' }.setConnection client c') := by
  refine h.act hget (hsubs ▸ h.inv) hlen (fun d info hd => ⟨info, hsubs ▸ hd, rfl⟩) hout
    (fun d c hd => .of_channel hsubs (hchannels d hd)) hview

theorem sender_of_changes {t t' : Tracker} {clients : ClientId → Prop}
    {links : ClientId → SubscriptionId → Prop}
    (h : Changes t.subscriptions t'.subscriptions clients links) (d : ClientId) (info : ClientInfo)
    (hget : t'.subscriptions.clients.get? d = some info) :
    ∃ info', t.subscriptions.clients.get? d = some info' ∧ info.sender = info'.sender := by
  obtain ⟨-, info', hget', hsender⟩ := (h.sender d info.sender).mp ⟨info, hget, rfl⟩
  exact ⟨info', hget', hsender.symm⟩

theorem connect (h : PubSubInv hash events s) {maxCount : ℕ} {t' : Tracker}
    (hregister : s.tracker.register s.connections.length maxCount = .ok t') :
    PubSubInv hash events
      { s with tracker := t', connections := s.connections ++ [⟨.select, none, .empty⟩] } := by
  obtain ⟨s₁, hok, hinv, hregisters⟩ := Tracker.register_ok h.inv s.connections.length maxCount
  rw [hregister] at hok
  cases hok
  have hlen := h.len
  refine ⟨hinv, by simp [hlen], fun d info hd => ?_, fun d c hd => ?_, fun x hx => ?_⟩
  · simp only [List.length_append, List.length_singleton]
    by_cases heq : d = s.connections.length
    · subst heq
      rw [hregisters.there] at hd
      cases hd
      exact ⟨hlen, Nat.lt_succ_self _⟩
    · obtain ⟨info', hd', hsender⟩ := hregisters.others d info heq hd
      obtain ⟨hself, hlt⟩ := h.sender d info' hd'
      exact ⟨hsender.trans hself, hlt.trans (Nat.lt_succ_self _)⟩
  · simp only [List.getElem?_append, List.getElem?_singleton] at hd
    split at hd
    · rename_i hlt
      have hne : d ≠ s.connections.length := hlt.ne
      have hquiet : Quiet s.tracker { s.tracker with
          subscriptions := s₁
          channelsLen := s.tracker.channelsLen + 1
          channels := Function.update s.tracker.channels s.tracker.channelsLen
            (ClientSender.channel maxCount) } d c := by
        refine ⟨Function.update_of_ne (hlen ▸ hne) .., fun hnone => ?_,
          fun _ j hj => Or.inl (hregisters.listed d j hj), fun j _ hno hj => hno (hregisters.listed d j hj),
          fun j hj => ⟨hregisters.subscriptionId ▸ hj.1, fun e he => hj.2 e (hregisters.listed e j he)⟩⟩
        cases hget : s₁.clients.get? d with
        | none => rfl
        | some info =>
          obtain ⟨info', hd', -⟩ := hregisters.others d info hne hget
          rw [hnone] at hd'
          cases hd'
      have hview := (h.view d c hd).quiet hquiet (show Foreign d [] by simp [Foreign])
      rwa [List.append_nil] at hview
    · split at hd
      · rename_i hge hzero
        cases hd
        obtain rfl : d = s.connections.length :=
          Nat.le_antisymm (Nat.sub_eq_zero_iff_le.mp hzero) (Nat.le_of_not_lt hge)
        -- nothing has happened to the new client
        have hno : Foreign s.connections.length events := .of_client fun x hx => (h.fresh x hx).ne
        have hchannel : Function.update s.tracker.channels s.tracker.channelsLen
            (ClientSender.channel maxCount) s.connections.length = ClientSender.channel maxCount := by
          rw [← hlen]
          exact Function.update_self ..
        refine ⟨by simpa using hno.lawful [], ?_, ?_, fun n hn => absurd rfl (hno _ hn),
          fun hn => absurd rfl (hno _ hn), fun n hn => absurd rfl (hno _ hn), fun _ => ⟨[], [], ?_⟩⟩
        · rw [hno.sentTo]
          exact List.nil_prefix
        · rw [hno.readBy]
          exact List.nil_prefix
        · refine ⟨by simp only [hchannel]; rfl, by simp only [hchannel]; rfl, ?_, ?_,
            Or.inl ⟨rfl, fun n hn => hno _ hn rfl⟩, by simp, List.Pairwise.nil, by simp, fun j hj => ?_,
            (fun j hj => by cases hj), (fun j hj => by cases hj), fun hsome => absurd rfl hsome,
            fun n hn => hno _ hn rfl⟩
          · rw [hno.sentTo, hno.readBy]
            rfl
          · show 1 ≤ (Function.update s.tracker.channels s.tracker.channelsLen
              (ClientSender.channel maxCount) s.connections.length).size
            rw [hchannel]
            exact Nat.le_add_left 1 _
          · obtain ⟨info, hinfo, hj⟩ := hj
            rw [hregisters.there] at hinfo
            cases hinfo
            cases hj
      · cases hd
  · rw [List.length_append]
    exact (h.fresh x hx).trans_le (Nat.le_add_right _ _)

theorem answer_eq (s : PubSub) (client : ClientId) (c : Connection) (response : ConnectionResponse) :
    s.answer client c response = s.setConnection client (c.answered response) := by
  unfold PubSub.answer Connection.answered
  cases c.phase <;> rfl

theorem subscribe (h : PubSubInv hash events s) (hget : s.connections[client]? = some c)
    (hsome : c.request ≠ none) {t' : Tracker} {id : SubscriptionId} {method : SubscribeMethod}
    {trackerEvents : List TrackerEvent} (hinv : Inv hash t'.subscriptions)
    (hsubscribed : Tracker.Subscribed s.tracker t' client id trackerEvents) :
    PubSubInv hash (events ++ trackerEvents.map .produced)
      ({ s with tracker := t' }.answer client c (.subscribed id method)) := by
  rw [answer_eq]
  have hview : ConnectionView events s.tracker client (c.answered (.subscribed id method)) := by
    refine (h.view client c hget).answered hsome ?_
    rintro l tail - j hresponse
    cases hresponse
  have hphase : (c.answered (.subscribed id method)).phase = .responding (.subscribed id method) ∨
      (c.answered (.subscribed id method)).phase.isClosed := by
    rcases (h.view client c hget).waiting hsome with hphase | ⟨reason, hphase⟩
    · exact Or.inl (by rw [Connection.answered, hphase])
    · refine Or.inr ?_
      simp [Connection.answered, hphase, ConnectionPhase.isClosed]
  have hknows : (c.answered (.subscribed id method)).phase.isClosed = false →
      (c.answered (.subscribed id method)).Knows id := by
    intro hopen
    rcases hphase with hphase | hclosed
    · exact Or.inr ⟨method, hphase⟩
    · rw [hopen] at hclosed
      cases hclosed
  have hother : ∀ j, (c.answered (.subscribed id method)).phase ≠ .responding (.unsubscribed j true) := by
    intro j hj
    rcases hphase with hphase | hclosed
    · rw [hphase] at hj
      cases hj
    · rw [hj] at hclosed
      cases hclosed
  cases hsubscribed with
  | gone hnone hid ht' =>
    have hchanges : Changes { s.tracker.subscriptions with subscriptionId := id + 1 } t'.subscriptions
        (fun _ => True) fun _ _ => True := by
      rw [ht']
      exact ⟨by simp, by simp, rfl⟩
    have hle : s.tracker.subscriptions.subscriptionId ≤ id + 1 := hid ▸ Nat.le_succ _
    have hquiet : ∀ d c, Quiet s.tracker t' d c :=
      fun d c => .of_changes hle hchanges (by rw [ht'])
    refine h.act hget hinv (by rw [ht']) (fun d info hd => ⟨info, by rwa [ht'] at hd, rfl⟩) (by simp)
      (fun d c _ => hquiet d c) (hview.quiet (hquiet client _) (by simp [Foreign]))
  | added info hinfo ht' hadds hlt hid =>
    have hsame : ∀ d, t'.channels d = s.tracker.channels d := fun d => by rw [ht']
    refine h.act hget hinv (by rw [ht']) (fun d info hd => ?_) (by simp)
      (fun d c hd => .of_adds hadds hid (hsame d) (fun heq => absurd heq hd) fun heq => absurd heq hd)
      (hview.quiet (.of_adds hadds hid (hsame client) (fun _ => hknows) fun _ => hother)
        (by simp [Foreign]))
    obtain ⟨info', hd', hsender⟩ := (hadds.sender d info.sender).mp ⟨info, hd, rfl⟩
    exact ⟨info', hd', hsender.symm⟩
  | final info json sent n hinfo hid hn hsent ht' hchanges =>
    obtain ⟨hself, -⟩ := h.sender client info hinfo
    have hle : s.tracker.subscriptions.subscriptionId ≤ id + 1 := hid ▸ Nat.le_succ _
    have hnid : n.subscriptionId = id := by rw [hn]
    have hchannel : ∀ d, d ≠ client → t'.channels d = s.tracker.channels d := by
      intro d hd
      rw [ht', hself]
      exact Function.update_of_ne hd ..
    refine h.act hget hinv (by rw [ht']) (fun d info hd => ?_) (by simp [PubSubEvent.client])
      (fun d c hd => .of_changes hle hchanges (hchannel d hd)) ?_
    · obtain ⟨-, info', hd', hsender⟩ := (hchanges.sender d info.sender).mp ⟨info, hd, rfl⟩
      exact ⟨info', hd', hsender.symm⟩
    have hlisted : ∀ d j, t'.subscriptions.Listed d j → s.tracker.subscriptions.Listed d j :=
      fun d j hj => ((hchanges.listed d j).mp hj).1
    have hnone : Foreign client [] := by simp [Foreign]
    refine hview.produce hnone hnone ?_ ?_ ?_
      (hlisted client) (fun j hdead => hchanges.dead (dead_skip hle hdead)) ?_ ?_ ?_ ?_
    · rw [ht', hself]
      rw [hself] at hsent
      refine Prod.ext ?_ hsent.symm
      exact (Tracker.setChannel_self _ _ _).symm
    · rw [hinfo]
      exact Option.some_ne_none _
    · rintro rfl
      exact hchanges.removed (by simp)
    · rw [hnid]
      exact hknows
    · rw [hnid, hid]
      exact fun hdead => lt_irrefl _ hdead.1
    · intro _
      refine ⟨?_, fun d hd => ?_⟩
      · rw [hnid, hchanges.subscriptionId]
        exact Nat.lt_succ_self id
      · obtain ⟨sub, hsub, -⟩ := (h.inv.linked d n.subscriptionId).mp (hlisted d _ hd)
        have hlt := (h.inv.stored.info _ sub hsub).2
        rw [hnid, hid] at hlt
        exact lt_irrefl _ hlt
    · exact fun j hj => absurd hj (hother j)

theorem unsubscribe (h : PubSubInv hash events s) (hget : s.connections[client]? = some c)
    (hsome : c.request ≠ none) {subscriptions : Subscriptions} {id : SubscriptionId} {removed : Bool}
    (hinv : Inv hash subscriptions)
    (hchanges : Changes s.tracker.subscriptions subscriptions (fun _ => True)
      fun c j => ¬ (c = client ∧ j = id)) :
    PubSubInv hash (events ++ if removed then [.unsubscribed client id] else [])
      ({ s with tracker := { s.tracker with subscriptions } }.answer client c
        (.unsubscribed id removed)) := by
  rw [answer_eq]
  have hclient : ∀ x ∈ if removed then [PubSubEvent.unsubscribed client id] else [], x.client = client := by
    intro x hx
    split at hx
    · rw [List.mem_singleton.mp hx]
      rfl
    · cases hx
  have hout : Foreign client (if removed then [.unsubscribed client id] else []) := by
    intro x hx
    split at hx
    · rw [List.mem_singleton.mp hx]
      exact Option.some_ne_none _ ∘ Eq.symm
    · cases hx
  have hquiet : ∀ d c, Quiet s.tracker { s.tracker with subscriptions } d c :=
    fun d c => .of_changes le_rfl hchanges rfl
  refine h.act hget hinv rfl (sender_of_changes hchanges) hclient (fun d c _ => hquiet d c) ?_
  refine ((h.view client c hget).quiet (hquiet client c) hout).answered hsome ?_
  rintro l tail hview j hresponse
  cases hresponse
  refine ⟨fun hlisted => ((hchanges.listed client id).mp hlisted).2 ⟨rfl, rfl⟩, fun n hn hid => ?_⟩
  subst hid
  -- the notification was sent before
  have hmem : n ∈ sentTo client (events ++ if true then [.unsubscribed client n.subscriptionId] else []) := by
    rw [hview.flow]
    exact List.mem_append_right _ hn
  rw [sentTo_append, hout.sentTo, List.append_nil] at hmem
  exact Unsubscribed.of_mem (mem_sentTo.mp hmem)

theorem deliver (h : PubSubInv hash events s) {id : SubscriptionId} {method : SubscribeMethod}
    {isFinal : Bool} {json : String} {t' : Tracker} {trackerEvents : List TrackerEvent}
    (hdeliver : s.tracker.deliver id method isFinal json = .ok (t', trackerEvents)) :
    PubSubInv hash (events ++ trackerEvents.map .produced) { s with tracker := t' } := by
  rcases Tracker.deliver_ok h.inv id method isFinal json with ⟨-, hok⟩ |
    ⟨sub, channels, trackerEvents', subscriptions, hsub, hsend, hok, hinv, hchanges⟩
  · rw [hdeliver] at hok
    cases hok
    simpa using h
  rw [hdeliver] at hok
  obtain ⟨rfl, rfl⟩ := Prod.mk.inj (Except.ok.inj hok)
  have hsends := Tracker.sendAll_channels
    (t := { s.tracker with notifications := (s.tracker.notifications.push json).1 })
    (fun d info hd => (h.sender d info hd).1) sub.clients.nodup_keys hsend
  have hlists : ∀ d, d ∈ sub.clients.keys → s.tracker.subscriptions.Listed d id := fun d hd =>
    (h.inv.linked d id).mpr ⟨sub, hsub, SortedMap.contains_iff.mpr hd⟩
  have hforeign : ∀ {d : ClientId} {l : List TrackerEvent}, (∀ e ∈ l, e.client ≠ d) →
      Foreign d (l.map .produced) := by
    intro d l hl x hx
    obtain ⟨e, he, rfl⟩ := List.mem_map.mp hx
    exact fun hd => hl e he (Option.some.inj hd)
  refine h.tracker hinv rfl (sender_of_changes hchanges) (fun x hx => ?_) fun d c hd => ?_
  · obtain ⟨e, he, rfl⟩ := List.mem_map.mp hx
    have hmem : e.client ∈ sub.clients.keys := by
      by_contra hno
      exact ((hsends e.client).1 hno).2 e he rfl
    obtain ⟨info, hinfo, -⟩ := hlists _ hmem
    exact (h.sender _ info hinfo).2
  by_cases hmem : d ∈ sub.clients.keys
  · obtain ⟨sent, o₁, o₂, heq, ho₁, ho₂, hsend⟩ := (hsends d).2 hmem
    have hlisted := hlists d hmem
    rw [heq, List.map_append, List.map_cons]
    refine (h.view d c hd).produce (hforeign ho₁) (hforeign ho₂) hsend ?_ ?_
      (fun j hj => ((hchanges.listed d j).mp hj).1) (fun j => hchanges.dead) (fun hopen => ?_)
      (fun hdead => hdead.2 d hlisted) (fun hfinal => ⟨?_, fun e he => ?_⟩) (fun j hphase hj => ?_)
    · obtain ⟨info, hinfo, -⟩ := hlisted
      rw [hinfo]
      exact Option.some_ne_none _
    · rintro rfl
      refine hchanges.removed fun hall => ?_
      have hsent := hall ⟨d, _, false⟩ (heq ▸ List.mem_append_right _ List.mem_cons_self) rfl
      cases hsent
    · obtain ⟨l, tail, hview⟩ := (h.view d c hd).opened hopen
      exact hview.listed id hlisted
    · rw [hchanges.subscriptionId]
      exact (h.inv.stored.info id sub hsub).2
    · exact ((hchanges.listed e id).mp he).2.1 ⟨hfinal, rfl⟩
    · obtain ⟨l, tail, hview⟩ := (h.view d c hd).opened (by rw [hphase]; rfl)
      exact (hview.unsubscribed j hphase).1 (hj ▸ hlisted)
  · obtain ⟨hchannel, hnone⟩ := (hsends d).1 hmem
    exact (h.view d c hd).quiet (.of_changes le_rfl hchanges hchannel) (hforeign hnone)

theorem close (h : PubSubInv hash events s) (hget : s.connections[client]? = some c)
    (hopen : c.phase.isClosed = false) {t : Tracker}
    (hsubs : t.subscriptions = s.tracker.subscriptions) (hlen : t.channelsLen = s.tracker.channelsLen)
    (hchannels : ∀ d, d ≠ client → t.channels d = s.tracker.channels d) (reason : CloseReason) :
    PubSubInv hash (events ++ [.closed client reason])
      ({ s with tracker := t }.close client c reason) := by
  have hsubs' : (t.setChannel client (t.channels client).close).subscriptions = s.tracker.subscriptions :=
    hsubs
  refine h.act_channel hget hsubs' hlen (fun d hd => ?_) (by simp [PubSubEvent.client]) ?_
  · exact (Tracker.setChannel_of_ne _ hd _).trans (hchannels d hd)
  · exact (h.view client c hget).close hopen hsubs' reason

/-- A notification is taken from the queue. -/
theorem write (h : PubSubInv hash events s) (hget : s.connections[client]? = some c)
    (hphase : c.phase = .select) {held : Bool} {n : RpcNotification} {t : Tracker}
    (ht : t = s.tracker.setChannel client (s.tracker.channels client).recv)
    (hhead : (s.tracker.channels client).queue.head? = some (.notification n))
    (hwrite : { s with tracker := t }.write client c held n = (s', out)) :
    PubSubInv hash (events ++ out) s' := by
  have hopen : c.phase.isClosed = false := by
    rw [hphase]
    rfl
  have hsubs : t.subscriptions = s.tracker.subscriptions := by rw [ht]; rfl
  have hlen : t.channelsLen = s.tracker.channelsLen := by rw [ht]; rfl
  have hchannel : t.channels client = (s.tracker.channels client).recv := by
    rw [ht, Tracker.setChannel_self]
  have hchannels : ∀ d, d ≠ client → t.channels d = s.tracker.channels d := by
    intro d hd
    rw [ht, Tracker.setChannel_of_ne _ hd]
  have hview := h.view client c hget
  obtain ⟨l, tail, hqueue⟩ := hview.opened hopen
  obtain ⟨l, rfl⟩ : ∃ l', l = n :: l' := by
    rw [hqueue.queue] at hhead
    cases l with
    | nil =>
      rcases hqueue.tail with ⟨rfl, -⟩ | ⟨rfl, -⟩ <;> cases hhead
    | cons n' l =>
      cases hhead
      exact ⟨l, rfl⟩
  unfold PubSub.write at hwrite
  split at hwrite
  · rename_i hcontains
    simp only at hwrite
    split at hwrite
    · obtain ⟨rfl, rfl⟩ := Prod.ext_iff.mp hwrite
      refine h.act_channel hget hsubs hlen hchannels (by simp [PubSubEvent.client]) ?_
      refine hview.take hqueue hphase (Or.inl ⟨rfl, hcontains⟩) hsubs hchannel (fun j hj => ?_)
        fun j hj hne => ?_
      · split at hj
        · rw [SortedMap.contains_erase, Bool.and_eq_true] at hj
          exact hj.2
        · exact hj
      · split
        · rename_i hfinal
          simpa [hj] using hne hfinal
        · exact hj
    · obtain ⟨rfl, rfl⟩ := Prod.ext_iff.mp hwrite
      have hsubs' : (t.setChannel client (t.channels client).close).subscriptions =
          s.tracker.subscriptions := hsubs
      refine h.act_channel hget hsubs' hlen (fun d hd => ?_) (by simp [PubSubEvent.client]) ?_
      · exact (Tracker.setChannel_of_ne _ hd _).trans (hchannels d hd)
      · exact hview.evict hqueue hopen hsubs' _
  · rename_i hcontains
    obtain ⟨rfl, rfl⟩ := Prod.ext_iff.mp hwrite
    have hself : { s with tracker := t } = { s with tracker := t }.setConnection client c := by
      obtain ⟨hlt, rfl⟩ := List.getElem?_eq_some_iff.mp hget
      unfold PubSub.setConnection
      rw [List.set_getElem_self]
    rw [hself]
    refine h.act_channel hget hsubs hlen hchannels (by simp [PubSubEvent.client]) ?_
    exact hview.take hqueue hphase (Or.inr ⟨rfl, Bool.not_eq_true _ ▸ hcontains⟩) hsubs hchannel
      (fun _ => id) fun _ hj _ => hj

/-- The tracker drops a client whose connection is closed. -/
theorem remove (h : PubSubInv hash events s) (hget : s.connections[client]? = some c)
    (hclosed : c.phase.isClosed) (hnone : c.request = none) {subscriptions : Subscriptions}
    (hinv : Inv hash subscriptions)
    (hchanges : Changes s.tracker.subscriptions subscriptions (· ≠ client) fun c _ => c ≠ client) :
    PubSubInv hash (events ++ [.removed client])
      { s with tracker := { s.tracker with subscriptions } } := by
  have hgone : subscriptions.clients.get? client = none := hchanges.removed (by simp)
  refine h.tracker hinv rfl (sender_of_changes hchanges) (fun x hx => ?_) fun d c' hd => ?_
  · rw [List.mem_singleton.mp hx]
    exact (List.getElem?_eq_some_iff.mp hget).1
  · have hquiet : Quiet s.tracker { s.tracker with subscriptions } d c' := .of_changes le_rfl hchanges rfl
    by_cases heq : d = client
    · subst heq
      rw [hget] at hd
      cases hd
      have hview := (h.view d c hget).quiet hquiet (show Foreign d [] by simp [Foreign])
      rw [List.append_nil] at hview
      have hmem : ∀ x : PubSubEvent, x ≠ .removed d → x ∈ events ++ [.removed d] → x ∈ events :=
        fun x hne hx => (List.mem_append.mp hx).resolve_right fun hlast => hne (List.mem_singleton.mp hlast)
      refine ⟨atEach_append.mpr ⟨hview.lawful, atEach_singleton.mpr trivial⟩, ?_, ?_,
        fun n hn => hview.dropped n (hmem _ (by simp) hn), fun _ => ⟨hgone, hclosed, hnone⟩,
        fun n hn => hview.evicted n (hmem _ (by simp) hn), fun hopen => ?_⟩
      · simpa [sentTo, producedFor] using hview.sent
      · simpa [sentTo, readBy] using hview.inOrder
      · rw [hclosed] at hopen
        cases hopen
    · refine (h.view d c' hd).quiet hquiet (.of_client fun x hx => ?_)
      rw [List.mem_singleton.mp hx]
      exact Ne.symm heq

theorem step (h : PubSubInv hash events s) {a : PubSubAction}
    (hstep : PubSub.step hash encode s a = .ok (s', out)) : PubSubInv hash (events ++ out) s' := by
  cases a with
  | connect maxCount =>
    simp only [PubSub.step] at hstep
    split at hstep
    · cases hstep
    · rename_i t' hregister
      cases hstep
      rw [List.append_nil]
      exact h.connect hregister
  | request client request =>
    simp only [PubSub.step] at hstep
    split at hstep
    · rename_i subscriptions hget
      cases hstep
      have hview := (h.view client _ hget).ask rfl request
      refine h.act_channel hget (Eq.refl s.tracker.subscriptions) rfl (fun _ _ => rfl) (by simp) ?_
      rwa [List.append_nil]
    · cases hstep
  | serve client signatures =>
    simp only [PubSub.step] at hstep
    split at hstep
    · rename_i phase request subscriptions hget
      cases request with
      | subscribe config =>
        obtain ⟨t', id, trackerEvents, hsubscribe, hinv, hsubscribed⟩ :=
          Tracker.subscribe_ok encode h.inv client config signatures
        simp only [PubSub.serve, hsubscribe] at hstep
        obtain ⟨rfl, rfl⟩ := Prod.mk.inj (Except.ok.inj hstep)
        exact h.subscribe hget (by simp) hinv hsubscribed
      | unsubscribe id =>
        obtain ⟨subscriptions', removed, hunsubscribe, hinv, hchanges, -⟩ :=
          unsubscribe_ok h.inv client id
        simp only [PubSub.serve, hunsubscribe] at hstep
        obtain ⟨rfl, rfl⟩ := Prod.mk.inj (Except.ok.inj hstep)
        exact h.unsubscribe hget (by simp) hinv hchanges
    · cases hstep
  | respond client =>
    simp only [PubSub.step] at hstep
    split at hstep
    · rename_i response request subscriptions hget
      cases hstep
      exact h.act_channel hget (Eq.refl s.tracker.subscriptions) rfl (fun _ _ => rfl)
        (by simp [PubSubEvent.client]) ((h.view client _ hget).respond rfl)
    · cases hstep
  | deliver id method isFinal json =>
    simp only [PubSub.step] at hstep
    split at hstep
    · cases hstep
    · rename_i t' trackerEvents hdeliver
      cases hstep
      exact h.deliver hdeliver
  | read client held =>
    simp only [PubSub.step] at hstep
    split at hstep
    · rename_i request subscriptions hget
      split at hstep
      · cases hstep
      · rename_i n hhead
        exact h.write hget rfl rfl hhead (Except.ok.inj hstep)
      · cases hstep
        exact h.close hget rfl (t := s.tracker.setChannel client (s.tracker.channels client).recv) rfl rfl
          (fun d hd => Tracker.setChannel_of_ne _ hd _) .laggedLen
    · cases hstep
  | disconnect client =>
    simp only [PubSub.step] at hstep
    split at hstep
    · cases hstep
    · cases hstep
    · rename_i c hnot hget
      cases hstep
      have hopen : c.phase.isClosed = false := by
        obtain ⟨phase, request, subscriptions⟩ := c
        cases phase with
        | closed reason => exact absurd rfl (hnot reason request subscriptions)
        | _ => rfl
      exact h.close hget hopen (t := s.tracker) rfl rfl (fun _ _ => rfl) .shutdown
  | remove client =>
    obtain ⟨subscriptions', hremove, hinv, hchanges⟩ := removeClient_ok h.inv client
    simp only [PubSub.step, hremove] at hstep
    split at hstep
    · rename_i reason subscriptions hget
      cases hstep
      exact h.remove hget rfl rfl hinv hchanges
    · cases hstep

/-- The client of a closed connection can be removed, after its request is served. -/
theorem drops (h : PubSubInv hash events s) (hget : s.connections[client]? = some c)
    (hclosed : c.phase.isClosed) (signatures : CachedSignatures) :
    ∃ actions s' out, (∀ a ∈ actions, a = .serve client signatures ∨ a = .remove client) ∧
      run (PubSub.step hash encode) s actions = .ok (s', out) ∧
      s'.tracker.subscriptions.clients.get? client = none := by
  obtain ⟨phase, request, subscriptions⟩ := c
  have hremove : ∀ {s : PubSub} {reason : CloseReason}, Inv hash s.tracker.subscriptions →
      s.connections[client]? = some ⟨.closed reason, none, subscriptions⟩ → ∃ s' out,
      PubSub.step hash encode s (.remove client) = .ok (s', out) ∧
        s'.tracker.subscriptions.clients.get? client = none := by
    intro s reason hinv hget
    obtain ⟨subscriptions', hremove, -, hchanges⟩ := removeClient_ok hinv client
    refine ⟨{ s with tracker := { s.tracker with subscriptions := subscriptions' } }, [.removed client],
      by simp only [PubSub.step, hget, hremove], hchanges.removed (by simp)⟩
  cases phase with
  | closed reason =>
    cases request with
    | none =>
      obtain ⟨s', out, hstep, hgone⟩ := hremove h.inv hget
      exact ⟨[.remove client], s', out, by simp, run_singleton.mpr hstep, hgone⟩
    | some request =>
      obtain ⟨s₁, o₁, hserve⟩ : ∃ s₁ o₁,
          PubSub.step hash encode s (.serve client signatures) = .ok (s₁, o₁) := by
        cases request with
        | subscribe config =>
          obtain ⟨t', id, trackerEvents, hsubscribe, -, -⟩ :=
            Tracker.subscribe_ok encode h.inv client config signatures
          exact ⟨_, _, by simp only [PubSub.step, hget, PubSub.serve, hsubscribe]; rfl⟩
        | unsubscribe id =>
          obtain ⟨subscriptions', removed, hunsubscribe, -⟩ := unsubscribe_ok h.inv client id
          exact ⟨_, _, by simp only [PubSub.step, hget, PubSub.serve, hunsubscribe]; rfl⟩
      have hconnection : s₁.connections[client]? = some ⟨.closed reason, none, subscriptions⟩ := by
        have hset : ∀ t' : Tracker, ({ s with tracker := t' }.setConnection client
            ⟨.closed reason, none, subscriptions⟩).connections[client]? =
              some ⟨.closed reason, none, subscriptions⟩ :=
          fun t' => List.getElem?_set_self (List.getElem?_eq_some_iff.mp hget).1
        simp only [PubSub.step, hget] at hserve
        cases request with
        | subscribe config =>
          obtain ⟨t', id, trackerEvents, hsubscribe, -, -⟩ :=
            Tracker.subscribe_ok encode h.inv client config signatures
          simp only [PubSub.serve, hsubscribe] at hserve
          obtain ⟨rfl, -⟩ := Prod.mk.inj (Except.ok.inj hserve)
          exact hset t'
        | unsubscribe id =>
          obtain ⟨subscriptions', removed, hunsubscribe, -⟩ := unsubscribe_ok h.inv client id
          simp only [PubSub.serve, hunsubscribe] at hserve
          obtain ⟨rfl, -⟩ := Prod.mk.inj (Except.ok.inj hserve)
          exact hset _
      obtain ⟨s', out, hstep, hgone⟩ := hremove (h.step hserve).inv hconnection
      exact ⟨[.serve client signatures, .remove client], s', o₁ ++ out, by simp,
        run_cons_ok.mpr ⟨s₁, o₁, out, hserve, run_singleton.mpr hstep, rfl⟩, hgone⟩
  | _ => cases hclosed

end PubSubInv

namespace PubSub

variable {hash : SubscribeConfig → ℕ} {encode : SubscriptionId → CachedSignature → String}

/-- What a read does while the queue ends with `Lagged`: the connection is closed as lagged, or the queue
has one notification less. -/
theorem read_lagged {s : PubSub} {client : ClientId} {request : Option ConnectionRequest}
    {subscriptions : IntMap SubscribeMethod}
    (hget : s.connections[client]? = some ⟨.select, request, subscriptions⟩)
    (hlast : (s.tracker.channels client).queue.getLast? = some .lagged) (held : Bool) :
    ∃ s' out c, step hash encode s (.read client held) = .ok (s', out) ∧
      s'.connections[client]? = some c ∧
      (c.phase = .closed .laggedLen ∨ c.phase = .closed .laggedMemory ∨ c.phase = .select ∧
        (s'.tracker.channels client).queue = (s.tracker.channels client).queue.tail ∧
        (s.tracker.channels client).queue.tail ≠ []) := by
  have hlt := (List.getElem?_eq_some_iff.mp hget).1
  cases hqueue : (s.tracker.channels client).queue with
  | nil =>
    rw [hqueue] at hlast
    cases hlast
  | cons item queue =>
    cases item with
    | lagged =>
      refine ⟨_, _, ⟨.closed .laggedLen, request, subscriptions⟩,
        by simp only [step, hget, hqueue, List.head?_cons]; rfl, ?_, Or.inl rfl⟩
      exact List.getElem?_set_self hlt
    | notification n =>
      have htail : queue ≠ [] := by
        rintro rfl
        rw [hqueue] at hlast
        cases hlast
      obtain ⟨t, ht⟩ : ∃ t, t = s.tracker.setChannel client (s.tracker.channels client).recv := ⟨_, rfl⟩
      obtain ⟨s', out, hwrite⟩ : ∃ s' out, ({ s with tracker := t } : PubSub).write client
          ⟨.select, request, subscriptions⟩ held n = (s', out) := ⟨_, _, rfl⟩
      have hrest : (t.channels client).queue = queue := by
        rw [ht, Tracker.setChannel_self, Mpsc.recv, hqueue]
        rfl
      refine ⟨s', out, ?_⟩
      have hstep : step hash encode s (.read client held) = .ok (s', out) := by
        simp only [step, hget, hqueue, List.head?_cons, ← ht, hwrite]
      simp only [hstep, true_and, List.tail_cons]
      unfold write at hwrite
      split at hwrite
      · simp only at hwrite
        split at hwrite
        · obtain ⟨rfl, rfl⟩ := Prod.mk.inj hwrite
          exact ⟨_, List.getElem?_set_self hlt, Or.inr (Or.inr ⟨rfl, hrest, htail⟩)⟩
        · obtain ⟨rfl, rfl⟩ := Prod.mk.inj hwrite
          exact ⟨_, List.getElem?_set_self hlt, Or.inr (Or.inl rfl)⟩
      · obtain ⟨rfl, rfl⟩ := Prod.mk.inj hwrite
        exact ⟨_, hget, Or.inr (Or.inr ⟨rfl, hrest, htail⟩)⟩

/-- A client that reads on is closed as lagged. -/
theorem reads_lagged (client : ClientId) (held : Bool) : ∀ (queue : List ClientNotification) {s : PubSub}
    {c : Connection}, (s.tracker.channels client).queue = queue → queue.getLast? = some .lagged →
    s.connections[client]? = some c → c.phase = .select → ∃ k s' out c',
      run (step hash encode) s (List.replicate k (.read client held)) = .ok (s', out) ∧
      s'.connections[client]? = some c' ∧
      (c'.phase = .closed .laggedLen ∨ c'.phase = .closed .laggedMemory)
  | [], s, c, _, hlast, _, _ => by cases hlast
  | item :: queue, s, ⟨phase, request, subscriptions⟩, hqueue, hlast, hget, hphase => by
    cases hphase
    obtain ⟨s₁, o₁, c₁, hstep, hget₁, hcase⟩ :=
      @read_lagged hash encode _ _ _ _ hget (hqueue ▸ hlast) held
    rcases hcase with hlen | hmemory | ⟨hselect, hqueue₁, htail⟩
    · exact ⟨1, s₁, o₁, c₁, run_singleton.mpr hstep, hget₁, Or.inl hlen⟩
    · exact ⟨1, s₁, o₁, c₁, run_singleton.mpr hstep, hget₁, Or.inr hmemory⟩
    · rw [hqueue, List.tail_cons] at hqueue₁ htail
      have hlast₁ : queue.getLast? = some .lagged := by
        rwa [List.getLast?_cons_of_ne_nil htail] at hlast
      obtain ⟨k, s', out, c', hrun, hclosed⟩ := reads_lagged client held queue hqueue₁ hlast₁ hget₁ hselect
      exact ⟨k + 1, s', o₁ ++ out, c', run_cons_ok.mpr ⟨s₁, o₁, out, hstep, hrun, rfl⟩, hclosed⟩

end PubSub

end Richat
