import Richat.Grpc.GapFree

/-!
# Replays and gaps of the upstream

The sender announces a gap of its history by a new recovery epoch (`begin_live_epoch`), one
commitment after the other. A message worker compares the epoch with the one of the client's
subscription once, at the beginning of a turn, and then takes messages; a replay worker does the same,
but takes records that were decoded before the turn.

`Gapped` is a client together with the streams it is served from. Every update carries where it comes
from (`Origin`), which no definition looks at. `StrictReplay` is what a client that asked for a slot
may expect, and `run_strictReplay` gives it for the runs in which no epoch begins between a worker's
check and what it takes from memory, and in which a request that moves the client finds no updates on
their way.
-/

namespace Richat

open Lib

/-- Where an update comes from. -/
structure Origin where
  /-- the epoch of the stream when the message was pushed -/
  epoch : ℕ
  /-- the epoch of the subscription, `none` for one without a slot -/
  subscribed : Option ℕ
  generation : ℕ
  deriving DecidableEq

/-- The message was not pushed after an epoch that follows the subscription. -/
def Origin.BeforeGap (origin : Origin) : Prop :=
  ∀ epoch, origin.subscribed = some epoch → origin.epoch ≤ epoch

/-- The updates of a message have its origin. -/
def MessageApi.sourced {φ μ υ : Type*} (api : MessageApi φ μ υ) :
    MessageApi φ (μ × Origin) (υ × Origin) where
  slot := fun message => api.slot message.1
  getUpdates := fun filter message commitment =>
    (api.getUpdates filter message.1 commitment).map fun u => (u, message.2)

/-- A client, and what it is served from. -/
structure Gapped (ι φ μ υ : Type*) where
  epoch : CommitmentLevel → ℕ
  /-- the messages of each stream, with the epoch they were pushed in -/
  stream : CommitmentLevel → List (μ × ℕ)
  /-- the records that the replay of the client has decoded and not pushed yet; one that is not
  selected has no message -/
  records : List (Option μ × ℕ)
  client : SubscribeClient ι φ (υ × Origin)

inductive GappedAction (ι φ μ : Type*) where
  /-- the sender pushes to the stream -/
  | push (commitment : CommitmentLevel) (message : μ)
  /-- the part of `begin_live_epoch` for the stream -/
  | beginLiveEpoch (commitment : CommitmentLevel)
  /-- the replay decodes a record of the journal between two turns -/
  | decode (commitment : CommitmentLevel) (number : ℕ)
  | beginMessages (i : ι)
  | beginReplay (i : ι) (generation : ℕ) (readError : Option Status)
  | take (i : ι)
  | setFilter (i : ι) (filter : φ) (head : Option NewHead)
  /-- a step that reads nothing of the streams -/
  | client (action : ClientAction ι φ (μ × Origin))

/-- The action reads nothing of the streams. -/
def ClientAction.isLocal {ι φ μ : Type*} : ClientAction ι φ μ → Bool
  | thread _ (.beginMessages _) | thread _ (.beginReplay ..) | thread _ (.take _)
  | thread _ (.setFilter ..) => false
  | _ => true

namespace Gapped

variable {ι φ μ υ : Type*}

def new (ι φ μ υ : Type*) : Gapped ι φ μ υ where
  epoch := fun _ => 0
  stream := fun _ => []
  records := []
  client := .new ι φ (υ × Origin)

/-- The recovery epoch of the stream of the client. -/
def recoveryEpoch (s : Gapped ι φ μ υ) : ℕ := s.epoch s.client.state.commitment

/-- Where an update of a message comes from that is taken now. -/
def origin (s : Gapped ι φ μ υ) (epoch : ℕ) : Origin where
  epoch := epoch
  subscribed := if s.client.state.replayFromSlot.isSome then some s.client.state.recoveryEpoch else none
  generation := s.client.state.replayGeneration

/-- The turn under way is one of a replay worker. -/
def isReplaying (s : Gapped ι φ μ υ) : Bool :=
  match s.client.lock with
  | some i => (s.client.threads i).isTurn && s.client.state.head.isStorage
  | none => false

theorem not_isReplaying_of_free {s : Gapped ι φ μ υ} {client : SubscribeClient ι φ (υ × Origin)}
    (hfree : client.lock = none) : ¬ isReplaying { s with client } := by
  intro h
  unfold isReplaying at h
  simp only [hfree] at h
  cases h

/-- Only a push can fall between the loop of a `push_error` and its error. -/
theorem undisturbed_thread {s : Gapped ι φ μ υ} {i : ι} {action : ThreadAction φ (μ × Origin)}
    (h : action ≠ .pushMessage) : s.client.Undisturbed (.thread i action) := by
  cases action with
  | pushMessage => exact absurd rfl h
  | beginMessages | beginReplay | take | fail | handOver | endTurn | ping | pong | setFilter | reject
    | shutdown | drain | pushError | wake => trivial

variable [DecidableEq ι] (api : MessageApi φ μ υ)

def clientStep (s : Gapped ι φ μ υ) (action : ClientAction ι φ (μ × Origin)) :
    Except Blocked (Gapped ι φ μ υ × List (ClientEvent (υ × Origin))) :=
  match s.client.step api.sourced action with
  | .error e => .error e
  | .ok (client, events) => .ok ({ s with client }, events)

/-- One step of the sender, of a worker, of the request handler or of the stream. -/
def step : Step (Gapped ι φ μ υ) (GappedAction ι φ μ) (ClientEvent (υ × Origin)) Blocked
  | s, .push commitment message =>
    let messages := s.stream commitment ++ [(message, s.epoch commitment)]
    .ok ({ s with stream := Function.update s.stream commitment messages }, [])
  | s, .beginLiveEpoch commitment =>
    let epoch := s.epoch commitment + 1
    .ok ({ s with epoch := Function.update s.epoch commitment epoch }, [])
  | s, .decode commitment number =>
    if s.isReplaying then .error .blocked
    else
      match (s.stream commitment)[number]? with
      | none => .error .blocked
      | some (message, epoch) =>
        let selected := if commitment = s.client.state.commitment then some message else none
        .ok ({ s with records := s.records ++ [(selected, epoch)] }, [])
  | s, .beginMessages i => s.clientStep api (.thread i (.beginMessages s.recoveryEpoch))
  | s, .beginReplay i generation readError =>
    s.clientStep api (.thread i (.beginReplay generation readError s.recoveryEpoch))
  | s, .take i =>
    match s.client.state.head, s.records with
    | .memory position, _ =>
      match (s.stream s.client.state.commitment)[position]? with
      | none => .error .blocked
      | some (message, epoch) =>
        s.clientStep api (.thread i (.take (some (message, s.origin epoch))))
    | .storage _, (message, epoch) :: records =>
      clientStep api { s with records }
        (.thread i (.take (message.map fun message => (message, s.origin epoch))))
    | _, _ => .error .blocked
  | s, .setFilter i filter head =>
    -- the handler has read the epoch for the new place before
    if head.all fun new => new.recoveryEpoch ≤ s.epoch new.commitment then
      clientStep api { s with records := if head.isSome then [] else s.records }
        (.thread i (.setFilter filter head))
    else .error .blocked
  | s, .client action => if action.isLocal then s.clientStep api action else .error .blocked

/-- The step does not meet the defect: what a message worker takes from memory for a client that asked
for a slot, it takes in the epoch that its turn was checked for; a request that moves the client finds
no update queued; and no step falls into the middle of a `push_error`. -/
def Steady (s : Gapped ι φ μ υ) : GappedAction ι φ μ → Prop
  | .take _ => s.client.state.head.isMemory → s.client.state.replayFromSlot.isSome →
      s.recoveryEpoch = s.client.state.recoveryEpoch
  | .setFilter _ _ head => head.isSome → s.client.queuedUpdates = []
  | .client action => s.client.Undisturbed action
  | _ => True

instance decidableSteady [Fintype ι] (s : Gapped ι φ μ υ) (a : GappedAction ι φ μ) :
    Decidable (s.Steady a) :=
  match a with
  | .take _ => inferInstanceAs (Decidable (_ → _ → _))
  | .setFilter _ _ _ =>
    have : Decidable (s.client.queuedUpdates = []) := decidable_of_iff _ List.isEmpty_iff
    inferInstanceAs (Decidable (_ → _))
  | .client action => inferInstanceAs (Decidable (s.client.Undisturbed action))
  | .push .. | .beginLiveEpoch _ | .decode .. | .beginMessages _ | .beginReplay .. =>
    inferInstanceAs (Decidable True)

/-- The rest of a `push_error` that finds `n` messages. -/
def pushErrorRest (i : ι) (n : ℕ) : List (GappedAction ι φ μ) :=
  List.replicate (n + 1) (.client (.thread i .drain)) ++ [.client (.thread i .pushError)]

/-- **A replay without a gap.** The client receives a prefix of what was pushed for it, and then at
most one error; no message of it was pushed after an epoch that follows its subscription; what it
receives next is of its last request; and once the epoch has moved, the next worker to look at the
client ends its stream with an error. -/
structure StrictReplay (s : Gapped ι φ μ υ) (tr : List (ClientEvent (υ × Origin))) : Prop where
  gapFree : s.client.GapFree tr
  beforeGap : ∀ u ∈ receivedUpdates tr, u.2.BeforeGap
  current : ∀ a s' out, step api s a = .ok (s', out) → ∀ u ∈ receivedUpdates out,
    u.2.generation = s.client.state.replayGeneration
  interrupted : ∀ i a, s.client.threads i = .idle → s.client.lock = none →
    s.client.state.finished = false → s.client.state.recoveryEpoch ≠ s.recoveryEpoch →
    a = .beginMessages i ∧ s.client.state.replayFromSlot.isSome ∨
      a = .beginReplay i s.client.state.replayGeneration none ∧ s.client.state.head.isStorage →
    ∃ s', run (step api) s (a :: pushErrorRest i s.client.messages.length) = .ok (s', []) ∧
      s'.client.state.finished ∧ s'.client.messages = [.error .gap]

/-! ### Updates and their origins -/

/-- The origin of an update for the client as it is now. -/
def Fits (s : Gapped ι φ μ υ) (u : υ × Origin) : Prop :=
  u.2.BeforeGap ∧ u.2.generation = s.client.state.replayGeneration

/-- The invariant of a served client. -/
structure GappedInv (s : Gapped ι φ μ υ) (tr : List (ClientEvent (υ × Origin))) : Prop where
  client : s.client.FlowInv tr
  stream : ∀ commitment, ∀ x ∈ s.stream commitment, x.2 ≤ s.epoch commitment
  records : ∀ x ∈ s.records, x.1.isSome → x.2 ≤ s.recoveryEpoch
  replaying : s.isReplaying → ∀ x ∈ s.records, x.1.isSome → x.2 ≤ s.client.state.recoveryEpoch
  queued : ∀ u ∈ s.client.queuedUpdates, s.Fits u
  pending : ∀ u ∈ s.client.pendingUpdates, s.Fits u
  received : ∀ u ∈ receivedUpdates tr, u.2.BeforeGap

variable {api} {s s' : Gapped ι φ μ υ} {tr out : List (ClientEvent (υ × Origin))} {i : ι}

theorem clientStep_ok {action : ClientAction ι φ (μ × Origin)} :
    s.clientStep api action = .ok (s', out) ↔
      ∃ client, s.client.step api.sourced action = .ok (client, out) ∧ s' = { s with client } := by
  unfold clientStep
  constructor
  · intro h
    split at h
    · cases h
    · rename_i client events hstep
      cases h
      exact ⟨client, hstep, rfl⟩
  · rintro ⟨client, hstep, rfl⟩
    rw [hstep]

/-- The updates of a message taken now. -/
theorem mem_updates_sourced {state : SubscribeClientState φ} {filter : φ}
    {message : Option (μ × Origin)} {u : υ × Origin}
    (h : u ∈ SubscribeClient.updates api.sourced state filter message) :
    ∃ m, message = some m ∧ u.2 = m.2 := by
  unfold SubscribeClient.updates at h
  split at h
  · cases h
  · rename_i m
    split at h
    · cases h
    · obtain ⟨x, -, rfl⟩ := List.mem_map.mp h
      exact ⟨m, rfl, rfl⟩

/-- A step that leaves lock and place alone, and begins no turn. -/
theorem isReplaying_setPhase (i : ι) (phase : Phase (υ × Origin))
    {client : SubscribeClient ι φ (υ × Origin)} (h : isReplaying { s with client })
    (hlock : client.lock = s.client.lock) (hhead : client.state.head = s.client.state.head)
    (hthreads : client.threads = (s.client.setPhase i phase).threads)
    (hphase : phase.isTurn → (s.client.threads i).isTurn) : s.isReplaying := by
  unfold isReplaying at h ⊢
  simp only [hlock, hhead, hthreads] at h
  cases hl : s.client.lock with
  | none =>
    rw [hl] at h
    cases h
  | some j =>
    rw [hl] at h
    obtain ⟨hturn, hstorage⟩ := Bool.and_eq_true_iff.mp h
    refine Bool.and_eq_true_iff.mpr ⟨?_, hstorage⟩
    by_cases hij : j = i
    · rw [hij] at hturn ⊢
      rw [SubscribeClient.threads_setPhase_self] at hturn
      exact hphase hturn
    · rwa [SubscribeClient.threads_setPhase_of_ne _ _ hij] at hturn

/-- A turn of a replay worker begins with the check of the epoch. -/
theorem isReplaying_threadStep {action : ThreadAction φ (μ × Origin)}
    {client : SubscribeClient ι φ (υ × Origin)} (hlock : s.client.LockInv)
    (hstep : SubscribeClient.ThreadStep api.sourced i s.client action client out)
    (h : isReplaying { s with client }) : s.isReplaying ∨ ∃ generation readError,
      action = .beginReplay generation readError s.client.state.recoveryEpoch := by
  have hidle : ∀ {phase : Phase (υ × Origin)}, phase.isTurn = false →
      (phase.isTurn → (s.client.threads i).isTurn) := by
    intro phase hno hturn
    rw [hno] at hturn
    cases hturn
  cases hstep with
  | stay => exact Or.inl h
  | «begin» _ _ _ hready =>
    refine hready.imp_left fun hmemory => ?_
    unfold isReplaying at h
    simp only [SubscribeClient.beginTurn] at h
    have hstorage := (Bool.and_eq_true_iff.mp h).2
    cases hhead : s.client.state.head with
    | unknown | storage =>
      rw [hhead] at hmemory
      cases hmemory
    | memory position =>
      rw [show (s.client.setPhase i (.turn [] false)).state.head = _ from hhead] at hstorage
      cases hstorage
  | abort _ error _ _ =>
    unfold isReplaying at h
    simp only [SubscribeClient.abort, SubscribeClient.threads_setPhase_self] at h
    cases h
  | take message filter pushed hphase _ =>
    have hl := hlock i (by rw [hphase]; rfl)
    left
    unfold isReplaying at h ⊢
    simp only [SubscribeClient.setPhase, hl] at h ⊢
    rw [Bool.and_eq_true_iff] at h ⊢
    refine ⟨by rw [hphase]; rfl, ?_⟩
    cases hhead : s.client.state.head with
    | storage => rfl
    | unknown | memory =>
      rw [hhead] at h
      cases h.2
  | fail error pushed hphase =>
    exact Or.inl (isReplaying_setPhase i (.draining error.status false) h rfl rfl rfl (hidle rfl))
  | handOver => exact absurd h (not_isReplaying_of_free rfl)
  | pushMessage u us pushed hphase =>
    exact Or.inl (isReplaying_setPhase i (.turn us true) h rfl rfl rfl (by rw [hphase]; exact id))
  | wakeTurn hphase =>
    exact Or.inl (isReplaying_setPhase i (.turn [] false) h rfl rfl rfl (by rw [hphase]; exact id))
  | endTurn => exact absurd h (not_isReplaying_of_free rfl)
  | pingPong => exact Or.inl (isReplaying_setPhase i .waking h rfl rfl rfl (hidle rfl))
  | setFilter _ _ _ hnone => exact absurd h (not_isReplaying_of_free hnone)
  | reject _ _ hnone => exact absurd h (not_isReplaying_of_free hnone)
  | shutdown =>
    exact Or.inl (isReplaying_setPhase i (.draining .shutdown false) h rfl rfl rfl (hidle rfl))
  | drained error dropped =>
    exact Or.inl (isReplaying_setPhase i (.failing error dropped) h rfl rfl rfl (hidle rfl))
  | drop error dropped message =>
    exact Or.inl (isReplaying_setPhase i (.draining error (dropped || message.counts)) h rfl rfl rfl
      (hidle rfl))
  | pushError => exact Or.inl (isReplaying_setPhase i .waking h rfl rfl rfl (hidle rfl))
  | wake hphase =>
    by_cases hl : s.client.lock = some i
    · exact absurd h (not_isReplaying_of_free (if_pos hl))
    · exact Or.inl (isReplaying_setPhase i .idle h (if_neg hl) rfl rfl (hidle rfl))

/-! ### The invariant -/

/-- An update that a step of a thread leaves to push or puts into the queue was there before, or is of
a message taken now. -/
theorem mem_threadStep {action : ThreadAction φ (μ × Origin)}
    {client : SubscribeClient ι φ (υ × Origin)} (hlock : s.client.LockInv)
    (hstep : SubscribeClient.ThreadStep api.sourced i s.client action client out) {u : υ × Origin}
    (hu : u ∈ client.queuedUpdates ∨ u ∈ client.pendingUpdates) :
    u ∈ s.client.queuedUpdates ∨ u ∈ s.client.pendingUpdates ∨ u ∈ takenUpdates out := by
  have hpending := SubscribeClient.pending_threadStep hlock hstep
  have hmoved : u ∈ produced out ++ client.pendingUpdates →
      u ∈ s.client.pendingUpdates ∨ u ∈ takenUpdates out := by
    rw [← hpending]
    exact List.mem_append.mp
  rcases hu with hu | hu
  · rcases SubscribeClient.mem_queuedUpdates_threadStep hstep hu with hu | hu
    · exact Or.inl hu
    · exact Or.inr (hmoved (List.mem_append_left _ hu))
  · exact Or.inr (hmoved (List.mem_append_right _ hu))

/-- A step of a thread that is not a request for another place. -/
theorem GappedInv.threadStep (h : GappedInv s tr) {action : ThreadAction φ (μ × Origin)}
    {client : SubscribeClient ι φ (υ × Origin)} {records : List (Option μ × ℕ)}
    (hstep : SubscribeClient.ThreadStep api.sourced i s.client action client out)
    (hrecords : records ⊆ s.records) (hok : s.client.Undisturbed (.thread i action))
    (hrequest : ∀ filter new, action ≠ .setFilter filter (some new))
    (htaken : ∀ u ∈ takenUpdates out, s.Fits u)
    (hbegin : ∀ generation readError,
      action = .beginReplay generation readError s.client.state.recoveryEpoch →
      s.client.state.recoveryEpoch = s.recoveryEpoch) :
    GappedInv { s with client, records } (tr ++ out) := by
  obtain ⟨hcommitment, hgeneration, hepoch, -⟩ := SubscribeClient.state_threadStep hstep hrequest
  have hrecovery : recoveryEpoch { s with client, records } = s.recoveryEpoch := by
    show s.epoch client.state.commitment = s.epoch s.client.state.commitment
    rw [hcommitment]
  have hfits : ∀ u, u ∈ client.queuedUpdates ∨ u ∈ client.pendingUpdates →
      Fits { s with client, records } u := by
    intro u hu
    have hold : s.Fits u := by
      rcases mem_threadStep h.client.inv.lock hstep hu with hu | hu | hu
      · exact h.queued u hu
      · exact h.pending u hu
      · exact htaken u hu
    exact ⟨hold.1, hold.2.trans hgeneration.symm⟩
  refine ⟨h.client.threadStep hok hstep, h.stream, ?_, ?_, fun u hu => hfits u (Or.inl hu),
    fun u hu => hfits u (Or.inr hu), ?_⟩
  · intro x hx
    rw [hrecovery]
    exact h.records x (hrecords hx)
  · intro hreplaying x hx hsome
    show x.2 ≤ client.state.recoveryEpoch
    rw [hepoch]
    rcases isReplaying_threadStep h.client.inv.lock hstep hreplaying with hold | ⟨g, e, rfl⟩
    · exact h.replaying hold x (hrecords hx) hsome
    · rw [hbegin g e rfl]
      exact h.records x (hrecords hx) hsome
  · have hreceived : receivedUpdates out = [] := by
      unfold receivedUpdates
      rw [hstep.stream.2.2.2.1]
      rfl
    rw [receivedUpdates_append, hreceived, List.append_nil]
    exact h.received

/-- Only a `take` takes something. -/
theorem takenUpdates_eq_nil {action : ThreadAction φ (μ × Origin)}
    {client : SubscribeClient ι φ (υ × Origin)} (haction : ∀ message, action ≠ .take message)
    (hstep : SubscribeClient.ThreadStep api.sourced i s.client action client out) :
    takenUpdates out = [] := by
  cases hstep with
  | take message => exact absurd rfl (haction message)
  | wakeTurn | wake => exact s.client.wake_events.2.1
  | setFilter filter head => cases head <;> rfl
  | stay | «begin» | abort | fail | handOver | pushMessage | endTurn | pingPong | reject | shutdown
    | drained | drop | pushError => rfl

/-- A step that reads nothing of the streams. -/
theorem GappedInv.local (h : GappedInv s tr) {action : ClientAction ι φ (μ × Origin)}
    (hlocal : action.isLocal) (hok : s.client.Undisturbed action)
    {client : SubscribeClient ι φ (υ × Origin)}
    (hstep : s.client.step api.sourced action = .ok (client, out)) :
    GappedInv { s with client } (tr ++ out) := by
  have hclient := h.client.step hok hstep
  -- a step of the stream leaves the threads and the place alone
  have hstream : client.threads = s.client.threads → client.lock = s.client.lock →
      (client.state = s.client.state ∨ client.state = { s.client.state with finished := true }) →
      client.messages ⊆ s.client.messages → (∀ u ∈ receivedUpdates out, u ∈ s.client.queuedUpdates) →
      GappedInv { s with client } (tr ++ out) := by
    intro hthreads hlock hstate hmessages hreceived
    have hsame : client.state.commitment = s.client.state.commitment ∧
        client.state.replayGeneration = s.client.state.replayGeneration ∧
        client.state.recoveryEpoch = s.client.state.recoveryEpoch ∧
        client.state.head = s.client.state.head := by
      rcases hstate with hstate | hstate <;> rw [hstate] <;> exact ⟨rfl, rfl, rfl, rfl⟩
    obtain ⟨hcommitment, hgeneration, hepoch, hhead⟩ := hsame
    refine ⟨hclient, h.stream, ?_, ?_, ?_, ?_, ?_⟩
    · show ∀ x ∈ s.records, x.1.isSome → x.2 ≤ s.epoch client.state.commitment
      rw [hcommitment]
      exact h.records
    · intro hreplaying
      show ∀ x ∈ s.records, x.1.isSome → x.2 ≤ client.state.recoveryEpoch
      rw [hepoch]
      refine h.replaying ?_
      unfold isReplaying at hreplaying ⊢
      simp only [hlock, hthreads, hhead] at hreplaying
      exact hreplaying
    · intro u hu
      have hold := h.queued u (List.filterMap_subset _ hmessages hu)
      exact ⟨hold.1, hold.2.trans hgeneration.symm⟩
    · intro u hu
      have hpending : client.pendingUpdates = s.client.pendingUpdates := by
        unfold SubscribeClient.pendingUpdates
        rw [hlock, hthreads]
      have hold := h.pending u (hpending ▸ hu)
      exact ⟨hold.1, hold.2.trans hgeneration.symm⟩
    · intro u hu
      rw [receivedUpdates_append] at hu
      rcases List.mem_append.mp hu with hu | hu
      · exact h.received u hu
      · exact (h.queued u (hreceived u hu)).1
  rcases SubscribeClient.step_cases hstep with ⟨i, action, rfl, hthread⟩ | ⟨-, -, rfl, rfl⟩ |
    ⟨-, -, rfl, rfl⟩ | ⟨waker, -, -, -, rfl, rfl⟩ | ⟨message, messages, rfl, -, hmessages, rfl, rfl⟩ |
    ⟨-, rfl, rfl⟩
  · refine h.threadStep hthread (List.Subset.refl s.records) hok ?_ ?_ ?_
    · intro filter new heq
      rw [heq] at hlocal
      cases hlocal
    · intro u hu
      rw [takenUpdates_eq_nil ?_ hthread] at hu
      · cases hu
      · intro message heq
        rw [heq] at hlocal
        cases hlocal
    · intro g e heq
      rw [heq] at hlocal
      cases hlocal
  · exact hstream rfl rfl (Or.inl rfl) (List.Subset.refl _) (by intro u hu; cases hu)
  · exact hstream rfl rfl (Or.inl rfl) (List.Subset.refl _) (by intro u hu; cases hu)
  · exact hstream rfl rfl (Or.inl rfl) (List.Subset.refl _) (by intro u hu; cases hu)
  · refine hstream rfl rfl (Or.inl rfl) ?_ ?_
    · show messages ⊆ s.client.messages
      rw [hmessages]
      exact List.subset_cons_self _ _
    · intro u hu
      obtain ⟨x, hx, hxu⟩ := List.mem_filterMap.mp hu
      refine List.mem_filterMap.mpr ⟨x, ?_, hxu⟩
      rw [List.mem_singleton.mp hx, hmessages]
      exact List.mem_cons_self
  · exact hstream rfl rfl (Or.inr rfl) (List.Subset.refl _) (by intro u hu; cases hu)

/-- The updates of a message that is taken now fit. -/
theorem fits_take {message : Option (μ × Origin)} {client : SubscribeClient ι φ (υ × Origin)}
    (hstep : SubscribeClient.ThreadStep api.sourced i s.client (.take message) client out)
    (hmessage : (s.client.threads i).isTurn → ∀ m, message = some m → m.2.BeforeGap ∧
      m.2.generation = s.client.state.replayGeneration) :
    ∀ u ∈ takenUpdates out, s.Fits u := by
  intro u hu
  cases hstep with
  | stay => cases hu
  | «begin» => cases hu
  | abort => cases hu
  | pingPong => cases hu
  | take _ filter pushed hphase _ =>
    simp only [takenUpdates, List.flatMap_cons, List.flatMap_nil, List.append_nil,
      ClientEvent.updates] at hu
    obtain ⟨m, hm, hum⟩ := mem_updates_sourced hu
    unfold Fits
    rw [hum]
    exact hmessage (by rw [hphase]; rfl) m hm

/-- The request that moves the client finds nothing queued and no turn under way. -/
theorem GappedInv.setFilter (h : GappedInv s tr) {filter : φ} {new : NewHead}
    (hempty : s.client.queuedUpdates = []) {client : SubscribeClient ι φ (υ × Origin)}
    (hstep : s.client.step api.sourced (.thread i (.setFilter filter (some new))) = .ok (client, out)) :
    GappedInv { s with client, records := [] } (tr ++ out) := by
  have hfree : s.client.lock = none ∧
      client = { s.client with state := SubscribeClient.setHead s.client.state filter (some new) } ∧
      out = [.moved new.head] := by
    change s.client.threadStep api.sourced i _ = _ at hstep
    unfold SubscribeClient.threadStep at hstep
    split at hstep <;> try (rename_i heq; cases heq; done)
    · rename_i heq
      cases heq
      split at hstep
      · cases hstep
      · rename_i hlock
        cases hstep
        exact ⟨Option.not_isSome_iff_eq_none.mp hlock, rfl, rfl⟩
    · cases hstep
  have hok : s.client.Undisturbed
      (.thread i (.setFilter filter (some new) : ThreadAction φ (μ × Origin))) := trivial
  have hclient := h.client.step hok hstep
  obtain ⟨hlock, rfl, rfl⟩ := hfree
  refine ⟨hclient, h.stream, ?_, ?_, ?_, ?_, ?_⟩
  · intro x hx
    cases hx
  · intro _ x hx
    cases hx
  · intro u hu
    have hu : u ∈ s.client.queuedUpdates := hu
    rw [hempty] at hu
    cases hu
  · intro u hu
    have hu : u ∈ s.client.pendingUpdates := hu
    rw [SubscribeClient.pendingUpdates_of_free hlock] at hu
    cases hu
  · rw [receivedUpdates_append]
    show ∀ u ∈ receivedUpdates tr ++ [], _
    rw [List.append_nil]
    exact h.received

/-- A step that does not meet the defect. -/
theorem GappedInv.step (h : GappedInv s tr) {a : GappedAction ι φ μ} (hok : s.Steady a)
    (hstep : Gapped.step api s a = .ok (s', out)) : GappedInv s' (tr ++ out) := by
  cases a with
  | push commitment message =>
    cases hstep
    rw [List.append_nil]
    refine ⟨h.client, ?_, h.records, h.replaying, h.queued, h.pending, h.received⟩
    intro c x hx
    by_cases hc : c = commitment
    · subst hc
      simp only [Function.update_self, List.mem_append, List.mem_singleton] at hx
      rcases hx with hx | rfl
      · exact h.stream c x hx
      · exact le_rfl
    · simp only [Function.update_of_ne hc] at hx
      exact h.stream c x hx
  | beginLiveEpoch commitment =>
    cases hstep
    rw [List.append_nil]
    have hle : ∀ c, s.epoch c ≤ Function.update s.epoch commitment (s.epoch commitment + 1) c := by
      intro c
      by_cases hc : c = commitment
      · rw [hc, Function.update_self]
        exact Nat.le_succ _
      · rw [Function.update_of_ne hc]
    exact ⟨h.client, fun c x hx => (h.stream c x hx).trans (hle c),
      fun x hx hsome => (h.records x hx hsome).trans (hle _), h.replaying, h.queued, h.pending,
      h.received⟩
  | decode commitment number =>
    simp only [Gapped.step] at hstep
    split at hstep
    · cases hstep
    · rename_i hreplaying
      split at hstep
      · cases hstep
      · rename_i message epoch hget
        cases hstep
        rw [List.append_nil]
        refine ⟨h.client, h.stream, ?_, fun hno => absurd hno hreplaying, h.queued, h.pending,
          h.received⟩
        intro x hx hsome
        rcases List.mem_append.mp hx with hx | hx
        · exact h.records x hx hsome
        · obtain rfl := List.mem_singleton.mp hx
          by_cases hc : commitment = s.client.state.commitment
          · rw [hc] at hget
            exact h.stream _ _ (List.mem_of_getElem? hget)
          · simp only [if_neg hc] at hsome
            cases hsome
  | beginMessages j =>
    obtain ⟨client, hclient, rfl⟩ := clientStep_ok.mp hstep
    have hthread := SubscribeClient.threadStep_cases hclient
    refine h.threadStep hthread (List.Subset.refl _) (undisturbed_thread (by intro h; cases h))
          (by intro _ _ h; cases h) ?_
      (by intro _ _ h; cases h)
    rw [takenUpdates_eq_nil (by intro _ h; cases h) hthread]
    intro u hu
    cases hu
  | beginReplay j generation readError =>
    obtain ⟨client, hclient, rfl⟩ := clientStep_ok.mp hstep
    have hthread := SubscribeClient.threadStep_cases hclient
    refine h.threadStep hthread (List.Subset.refl _) (undisturbed_thread (by intro h; cases h))
          (by intro _ _ h; cases h) ?_ ?_
    · rw [takenUpdates_eq_nil (by intro _ h; cases h) hthread]
      intro u hu
      cases hu
    · intro g e heq
      exact (ThreadAction.beginReplay.inj heq).2.2.symm
  | take j =>
    simp only [Gapped.step] at hstep
    split at hstep
    · rename_i position hhead
      split at hstep
      · cases hstep
      · rename_i message epoch hget
        obtain ⟨client, hclient, rfl⟩ := clientStep_ok.mp hstep
        have hthread := SubscribeClient.threadStep_cases hclient
        refine h.threadStep hthread (List.Subset.refl _) (undisturbed_thread (by intro h; cases h))
          (by intro _ _ h; cases h) ?_
          (by intro _ _ h; cases h)
        refine fits_take hthread ?_
        intro _ m hm
        cases hm
        refine ⟨?_, rfl⟩
        intro e he
        have hsome : s.client.state.replayFromSlot.isSome := by
          by_contra hno
          simp only [origin, if_neg hno] at he
          cases he
        simp only [origin, if_pos hsome, Option.some.injEq] at he
        rw [← he, ← hok (by rw [hhead]; rfl) hsome]
        exact h.stream _ _ (List.mem_of_getElem? hget)
    · rename_i index message epoch records hhead hrecords
      obtain ⟨client, hclient, rfl⟩ := clientStep_ok.mp hstep
      have hthread := SubscribeClient.threadStep_cases hclient
      have hmem : (message, epoch) ∈ s.records := by
        rw [hrecords]
        exact List.mem_cons_self
      refine h.threadStep hthread (by rw [hrecords]; exact List.subset_cons_self _ _)
        (undisturbed_thread (by intro h; cases h)) (by intro _ _ h; cases h) ?_
        (by intro _ _ h; cases h)
      refine fits_take hthread ?_
      intro hturn m hm
      obtain ⟨x, rfl, rfl⟩ := Option.map_eq_some_iff.mp hm
      refine ⟨?_, rfl⟩
      intro e he
      have hsome : s.client.state.replayFromSlot.isSome := by
        by_contra hno
        simp only [origin, if_neg hno] at he
        cases he
      simp only [origin, if_pos hsome, Option.some.injEq] at he
      rw [← he]
      refine h.replaying ?_ _ hmem rfl
      unfold isReplaying
      rw [h.client.inv.lock j hturn]
      exact Bool.and_eq_true_iff.mpr ⟨hturn, by rw [hhead]; rfl⟩
    · cases hstep
  | setFilter j filter head =>
    simp only [Gapped.step] at hstep
    split at hstep
    · obtain ⟨client, hclient, rfl⟩ := clientStep_ok.mp hstep
      cases head with
      | some new => exact h.setFilter (hok rfl) hclient
      | none =>
        have hthread := SubscribeClient.threadStep_cases hclient
        refine h.threadStep hthread (List.Subset.refl _) (undisturbed_thread (by intro h; cases h))
          (by intro _ _ h; cases h) ?_
          (by intro _ _ h; cases h)
        rw [takenUpdates_eq_nil (by intro _ h; cases h) hthread]
        intro u hu
        cases hu
    · cases hstep
  | client action =>
    simp only [Gapped.step] at hstep
    split at hstep
    · rename_i hlocal
      obtain ⟨client, hclient, rfl⟩ := clientStep_ok.mp hstep
      exact h.local hlocal hok hclient
    · cases hstep

/-! ### The end of an interrupted replay -/

theorem step_local {action : ClientAction ι φ (μ × Origin)} (hlocal : action.isLocal)
    {client : SubscribeClient ι φ (υ × Origin)} (h : s.client.step api.sourced action = .ok (client, out)) :
    step api s (.client action) = .ok ({ s with client }, out) := by
  show (if action.isLocal then s.clientStep api action else .error .blocked) = _
  rw [if_pos hlocal]
  exact clientStep_ok.mpr ⟨client, h, rfl⟩

theorem run_pushErrorRest (error : Status) (n : ℕ) : ∀ {s : Gapped ι φ μ υ} {dropped : Bool},
    s.client.threads i = .draining error dropped → s.client.messages.length = n →
    ∃ s', run (step api) s (pushErrorRest i n) = .ok (s', []) ∧
      s'.client.state = s.client.state ∧ s'.client.messages = [.error error] := by
  induction n with
  | zero =>
    intro s dropped hphase hlen
    have hempty := List.length_eq_zero_iff.mp hlen
    let s₁ := s.client.setPhase i (.failing error dropped)
    have h₁ : s.client.step api.sourced (.thread i .drain) = .ok (s₁, []) := by
      show s.client.threadStep api.sourced i .drain = _
      unfold SubscribeClient.threadStep
      rw [hphase]
      simp only [hempty]
      rfl
    have h₂ : s₁.step api.sourced (.thread i .pushError) =
        .ok (s₁.enqueue i (.error error) .waking, []) := by
      show s₁.threadStep api.sourced i .pushError = _
      unfold SubscribeClient.threadStep
      rw [SubscribeClient.threads_setPhase_self]
    refine ⟨{ s with client := s₁.enqueue i (.error error) .waking }, ?_, rfl, ?_⟩
    · exact run_cons_ok.mpr ⟨_, [], [], step_local rfl h₁, run_singleton.mpr (step_local rfl h₂), rfl⟩
    · show s.client.messages ++ [.error error] = _
      rw [hempty, List.nil_append]
  | succ n ih =>
    intro s dropped hphase hlen
    obtain ⟨message, messages, hmessages⟩ := List.exists_cons_of_length_eq_add_one hlen
    let s₁ : SubscribeClient ι φ (υ × Origin) :=
      { s.client.setPhase i (.draining error (dropped || message.counts)) with messages }
    have h₁ : s.client.step api.sourced (.thread i .drain) = .ok (s₁, []) := by
      show s.client.threadStep api.sourced i .drain = _
      unfold SubscribeClient.threadStep
      rw [hphase]
      simp only [hmessages]
      rfl
    obtain ⟨s', hrun, hstate, hlast⟩ := ih (s := { s with client := s₁ })
      (SubscribeClient.threads_setPhase_self ..) (by
        rw [hmessages] at hlen
        exact Nat.succ.inj hlen)
    exact ⟨s', run_cons_ok.mpr ⟨_, [], [], step_local rfl h₁, hrun, rfl⟩, hstate, hlast⟩

/-- The next worker to look at a client whose epoch has passed. -/
theorem interrupted {a : GappedAction ι φ μ} (hidle : s.client.threads i = .idle)
    (hlock : s.client.lock = none) (hopen : s.client.state.finished = false)
    (hepoch : s.client.state.recoveryEpoch ≠ s.recoveryEpoch)
    (ha : a = .beginMessages i ∧ s.client.state.replayFromSlot.isSome ∨
      a = .beginReplay i s.client.state.replayGeneration none ∧ s.client.state.head.isStorage) :
    ∃ s', run (step api) s (a :: pushErrorRest i s.client.messages.length) = .ok (s', []) ∧
      s'.client.state.finished ∧ s'.client.messages = [.error .gap] := by
  have habort : step api s a = .ok ({ s with client := s.client.abort i .gap }, []) := by
    have hfree : ¬ s.client.lock.isSome := by
      rw [hlock]
      exact Bool.false_ne_true
    rcases ha with ⟨rfl, hslot⟩ | ⟨rfl, hstorage⟩
    · refine clientStep_ok.mpr ⟨_, ?_, rfl⟩
      show s.client.threadStep api.sourced i _ = _
      unfold SubscribeClient.threadStep
      rw [hidle]
      simp only
      rw [if_neg hfree, if_neg (by rw [hopen]; exact Bool.false_ne_true), if_pos ⟨hslot, hepoch⟩]
    · refine clientStep_ok.mpr ⟨_, ?_, rfl⟩
      show s.client.threadStep api.sourced i _ = _
      unfold SubscribeClient.threadStep
      rw [hidle]
      simp only
      rw [if_neg hfree, if_neg (by simp [hopen, hstorage]), if_pos hepoch]
  let s₁ : Gapped ι φ μ υ := { s with client := s.client.abort i .gap }
  have hphase : s₁.client.threads i = .draining .gap false :=
    SubscribeClient.threads_setPhase_self ..
  obtain ⟨s', hrun, hstate, hlast⟩ :=
    run_pushErrorRest _ s.client.messages.length hphase rfl
  exact ⟨s', run_cons_ok.mpr ⟨_, [], [], habort, hrun, rfl⟩, by rw [hstate]; rfl, hlast⟩

/-! ### Runs -/

omit [DecidableEq ι] in
theorem gappedInv_new : GappedInv (.new ι φ μ υ) [] where
  client := by
    refine ⟨SubscribeClient.clientInv_new, .whole rfl, ?_⟩
    intro i hi
    cases hi
  stream := by
    intro c x hx
    cases hx
  records := by
    intro x hx
    cases hx
  replaying := by
    intro _ x hx
    cases hx
  queued := by
    intro u hu
    cases hu
  pending := by
    intro u hu
    cases hu
  received := by
    intro u hu
    cases hu

/-- What the client receives next is in its queue. -/
theorem mem_queuedUpdates_of_received {a : GappedAction ι φ μ} (h : step api s a = .ok (s', out))
    {u : υ × Origin} (hu : u ∈ receivedUpdates out) : u ∈ s.client.queuedUpdates := by
  have hclient : ∀ {s s' : Gapped ι φ μ υ} {action : ClientAction ι φ (μ × Origin)},
      s.clientStep api action = .ok (s', out) → u ∈ s.client.queuedUpdates := by
    intro s s' action h
    obtain ⟨client, hstep, -⟩ := clientStep_ok.mp h
    rcases SubscribeClient.step_cases hstep with ⟨i, action, -, hthread⟩ | ⟨-, -, -, rfl⟩ |
      ⟨-, -, -, rfl⟩ | ⟨waker, -, -, -, -, rfl⟩ | ⟨message, messages, -, -, hmessages, -, rfl⟩ |
      ⟨-, -, rfl⟩
    · unfold receivedUpdates at hu
      rw [hthread.stream.2.2.2.1] at hu
      cases hu
    · cases hu
    · cases hu
    · cases hu
    · obtain ⟨x, hx, hxu⟩ := List.mem_filterMap.mp hu
      refine List.mem_filterMap.mpr ⟨x, ?_, hxu⟩
      rw [List.mem_singleton.mp hx, hmessages]
      exact List.mem_cons_self
    · cases hu
  cases a with
  | push | beginLiveEpoch =>
    cases h
    cases hu
  | decode =>
    simp only [step] at h
    split at h
    · cases h
    · split at h <;> cases h
      cases hu
  | beginMessages | beginReplay => exact hclient h
  | take =>
    simp only [step] at h
    split at h
    · split at h
      · cases h
      · exact hclient h
    · have hmem := hclient h
      exact hmem
    · cases h
  | setFilter =>
    simp only [step] at h
    split at h
    · have hmem := hclient h
      exact hmem
    · cases h
  | client action =>
    simp only [step] at h
    split at h
    · exact hclient h
    · cases h

theorem GappedInv.strictReplay (h : GappedInv s tr) : StrictReplay api s tr where
  gapFree := h.client.gapFree
  beforeGap := h.received
  current := by
    intro a s' out hstep u hu
    exact (h.queued u (mem_queuedUpdates_of_received hstep hu)).2
  interrupted := by
    intro i a hidle hlock hopen hepoch ha
    exact Gapped.interrupted hidle hlock hopen hepoch ha

/-- **No gap reaches a replay**, in every run whose steps are all steady. -/
theorem run_strictReplay {acts : List (GappedAction ι φ μ)}
    (hok : AllSteps (step api) Steady (.new ι φ μ υ) acts)
    (h : run (step api) (.new ι φ μ υ) acts = .ok (s, tr)) : StrictReplay api s tr := by
  have hinv : GappedInv s tr :=
    run_induction_of (P := fun _ s tr => GappedInv s tr) gappedInv_new
      (fun _ _ _ _ _ _ _ h hok hstep => h.step hok hstep) hok h
  exact hinv.strictReplay

/-- A client asks for slot 5. -/
def subscribeFive : GappedAction Bool Unit ParsedMessage :=
  .setFilter false () (some ⟨.memory 0, .processed, some 5, 0⟩)

def statusOf (slot : Slot) : ParsedMessage := ⟨0, .slot ⟨slot, .slotProcessed, none, []⟩⟩

def receiveOne : List (GappedAction Bool Unit ParsedMessage) :=
  [.client .register, .client .pop]

/-- The client receives a status, and then the epoch moves. -/
def gapAfterTurn : List (GappedAction Bool Unit ParsedMessage) :=
  [subscribeFive, .push .processed (statusOf 5), .beginMessages true, .take true,
    .client (.thread true .pushMessage), .client (.thread true .endTurn), .client (.thread true .wake)] ++
  receiveOne ++ [.beginLiveEpoch .processed, .push .processed (statusOf 9)]

theorem run_strictReplay_status : ∃ s tr,
    run (step SubscribeClient.slotApi) (.new Bool Unit ParsedMessage ℕ) gapAfterTurn = .ok (s, tr) ∧
      (receivedUpdates tr).map (·.1) = [5] ∧ StrictReplay SubscribeClient.slotApi s tr := by
  obtain ⟨s, tr, hrun, hreceived⟩ := exists_of_returns
    (x := run (step SubscribeClient.slotApi) (.new Bool Unit ParsedMessage ℕ) gapAfterTurn)
    (p := fun _ tr => (receivedUpdates tr).map (·.1) = [5]) (by decide +kernel)
  have hok : AllSteps (step SubscribeClient.slotApi) Steady
      (.new Bool Unit ParsedMessage ℕ) gapAfterTurn :=
    allSteps_of_checkSteps (p := fun s a => decide (Steady s a))
      (fun _ _ => of_decide_eq_true) (by decide +kernel)
  exact ⟨s, tr, hrun, of_decide_eq_true hreceived, run_strictReplay hok hrun⟩

/-- The epoch moves between the check of a turn and what the turn takes. -/
def gapInTurn : List (GappedAction Bool Unit ParsedMessage) :=
  [subscribeFive, .push .processed (statusOf 5), .beginMessages true, .beginLiveEpoch .processed,
    .push .processed (statusOf 9), .take true, .client (.thread true .pushMessage), .take true,
    .client (.thread true .pushMessage)] ++ receiveOne ++ receiveOne

/-- A second request comes while an update for the first one is queued. -/
def requestInQueue : List (GappedAction Bool Unit ParsedMessage) :=
  [subscribeFive, .push .processed (statusOf 5), .beginMessages true, .take true,
    .client (.thread true .pushMessage), .client (.thread true .endTurn), subscribeFive, .client .register]

/-- The client receives the status of slot 9, which was pushed after the gap; and it receives an update
of the request that it has replaced. -/
theorem gap_reaches_replay :
    (∃ s tr, run (step SubscribeClient.slotApi) (.new Bool Unit ParsedMessage ℕ) gapInTurn =
        .ok (s, tr) ∧ (receivedUpdates tr).map (·.1) = [5, 9] ∧
        ¬ StrictReplay SubscribeClient.slotApi s tr) ∧
      ∃ s tr, run (step SubscribeClient.slotApi) (.new Bool Unit ParsedMessage ℕ) requestInQueue =
        .ok (s, tr) ∧ ¬ StrictReplay SubscribeClient.slotApi s tr := by
  constructor
  · obtain ⟨s, tr, hrun, h⟩ := exists_of_returns
      (x := run (step SubscribeClient.slotApi) (.new Bool Unit ParsedMessage ℕ) gapInTurn)
      (p := fun _ tr => receivedUpdates tr = [(5, ⟨0, some 0, 1⟩), (9, ⟨1, some 0, 1⟩)])
      (by decide +kernel)
    have hreceived := of_decide_eq_true h
    refine ⟨s, tr, hrun, by rw [hreceived]; rfl, fun hstrict => ?_⟩
    have hbefore := hstrict.beforeGap (9, ⟨1, some 0, 1⟩)
      (by rw [hreceived]; exact List.mem_cons_of_mem _ List.mem_cons_self) 0 rfl
    exact absurd hbefore (by decide)
  · obtain ⟨s, tr, hrun, h⟩ := exists_of_returns
      (x := run (step SubscribeClient.slotApi) (.new Bool Unit ParsedMessage ℕ) requestInQueue)
      (p := fun s _ => s.client.state.replayGeneration = 2 ∧
        returns (fun _ out => receivedUpdates out = [(5, ⟨0, some 0, 1⟩)])
          (step SubscribeClient.slotApi s (.client .pop)))
      (by decide +kernel)
    obtain ⟨hgeneration, hpop⟩ := of_decide_eq_true h
    obtain ⟨s', out, hstep, hreceived⟩ := exists_of_returns hpop
    refine ⟨s, tr, hrun, fun hstrict => ?_⟩
    have hcurrent := hstrict.current _ s' out hstep (5, ⟨0, some 0, 1⟩)
      (by rw [of_decide_eq_true hreceived]; exact List.mem_cons_self)
    rw [hgeneration] at hcurrent
    cases hcurrent

end Gapped

end Richat
