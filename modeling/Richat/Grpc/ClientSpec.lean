import Richat.Grpc.SubscribeClient

/-!
# What a thread does to a client

`ThreadStep` has a constructor for each kind of step of a thread, with what it asks of the phase of
the thread and of the lock; `threadStep_cases` reads it off `threadStep`. The three invariants that
need no more than the lock are here: only its holder is in a turn, what the turns have taken is what
they have pushed and have left to push, and every message was taken from the place of the client.
-/

namespace Richat

open Lib

namespace Phase

variable {υ : Type*}

/-- The updates that the turn has left to push. -/
def updates : Phase υ → List υ
  | turn updates _ => updates
  | _ => []

def isTurn : Phase υ → Bool
  | turn _ _ => true
  | _ => false

/-- A `push_error` that has removed an update or an error and has not pushed its own error. -/
def isDirty : Phase υ → Bool
  | draining _ dropped | failing _ dropped => dropped
  | _ => false

/-- Such a `push_error` after its loop. -/
def isDrained : Phase υ → Bool
  | failing _ dropped => dropped
  | _ => false

/-- The thread is in the middle of a push: it will wake the stream. -/
def owesWake : Phase υ → Bool
  | idle => false
  | turn _ pushed => pushed
  | draining _ _ | failing _ _ | waking => true

end Phase

namespace SubscribeClient

variable {ι φ μ υ : Type*} [DecidableEq ι]

/-- One step of the thread `i`, by what it does. -/
inductive ThreadStep (api : MessageApi φ μ υ) (i : ι)
    (s : SubscribeClient ι φ υ) : ThreadAction φ μ → SubscribeClient ι φ υ → List (ClientEvent υ) → Prop
  | stay (action) (h : s.threads i = .idle) : ThreadStep api i s action s []
  | begin (action) (h : s.threads i = .idle) (hlock : s.lock = none)
    (hready : s.state.head.isMemory ∨ ∃ generation readError,
      action = .beginReplay generation readError s.state.recoveryEpoch) :
    ThreadStep api i s action (s.beginTurn i) []
  | abort (action) (error : Status) (h : s.threads i = .idle) (hlock : s.lock = none) :
    ThreadStep api i s action (s.abort i error) []
  | take (message : Option μ) (filter : φ) (pushed : Bool)
    (h : s.threads i = .turn [] pushed) (hfilter : s.state.filter = some filter) :
    ThreadStep api i s (.take message)
      { s.setPhase i (.turn (updates api s.state filter message) pushed) with
        state := { s.state with head := s.state.head.next } }
      [.taken s.state.head (updates api s.state filter message)]
  | fail (error : RecvError) (pushed : Bool) (h : s.threads i = .turn [] pushed) :
    ThreadStep api i s (.fail error) (s.setPhase i (.draining error.status false)) []
  | handOver (position : ℕ) (pushed : Bool) (h : s.threads i = .turn [] pushed)
    (hhead : s.state.head.isStorage) :
    ThreadStep api i s (.handOver position)
      { s.endTurn i pushed with state := { s.state with head := .memory position } }
      [.moved (.memory position)]
  | pushMessage (u : υ) (us : List υ) (pushed : Bool) (h : s.threads i = .turn (u :: us) pushed) :
    ThreadStep api i s .pushMessage (s.enqueue i (.update u) (.turn us true)) [.pushed u]
  | wakeTurn (h : s.threads i = .turn [] true) :
    ThreadStep api i s .wake (s.wake.1.setPhase i (.turn [] false)) s.wake.2
  | endTurn (pushed : Bool) (h : s.threads i = .turn [] pushed) :
    ThreadStep api i s .endTurn (s.endTurn i pushed) []
  | pingPong (action) (message : SubscribeMessage υ) (h : s.threads i = .idle)
    (hmessage : message.counts = false) :
    ThreadStep api i s action (s.enqueue i message .waking) []
  | setFilter (filter : φ) (head : Option NewHead) (h : s.threads i = .idle) (hlock : s.lock = none) :
    ThreadStep api i s (.setFilter filter head)
      { s with state := setHead s.state filter head } (head.map fun new => .moved new.head).toList
  | reject (error : Status) (h : s.threads i = .idle) (hlock : s.lock = none) :
    ThreadStep api i s (.reject error)
      { s.setPhase i (.draining error false) with state := { s.state with finished := true } } []
  | shutdown (h : s.threads i = .idle) :
    ThreadStep api i s .shutdown (s.setPhase i (.draining .shutdown false)) []
  | drained (error : Status) (dropped : Bool) (h : s.threads i = .draining error dropped)
    (hempty : s.messages = []) :
    ThreadStep api i s .drain (s.setPhase i (.failing error dropped)) []
  | drop (error : Status) (dropped : Bool) (message : SubscribeMessage υ)
    (messages : List (SubscribeMessage υ)) (h : s.threads i = .draining error dropped)
    (hmessages : s.messages = message :: messages) :
    ThreadStep api i s .drain
      { s.setPhase i (.draining error (dropped || message.counts)) with messages } []
  | pushError (error : Status) (dropped : Bool) (h : s.threads i = .failing error dropped) :
    ThreadStep api i s .pushError (s.enqueue i (.error error) .waking) []
  | wake (h : s.threads i = .waking) :
    ThreadStep api i s .wake
      { s.wake.1.setPhase i .idle with lock := if s.lock = some i then none else s.lock } s.wake.2

variable {api : MessageApi φ μ υ} {s s' : SubscribeClient ι φ υ}
  {i : ι} {action : ThreadAction φ μ} {out : List (ClientEvent υ)}

/-- **What a step of a thread is.** -/
theorem threadStep_cases (h : s.threadStep api i action = .ok (s', out)) :
    ThreadStep api i s action s' out := by
  have hlock : ¬ s.lock.isSome = true → s.lock = none := by
    intro hno
    rwa [Option.not_isSome_iff_eq_none] at hno
  unfold threadStep at h
  split at h
  · rename_i hphase
    split at h
    · cases h
    · rename_i hl
      split at h
      · cases h
        exact .stay _ hphase
      · split at h
        · cases h
          exact .abort _ _ hphase (hlock hl)
        · split at h
          · rename_i hready
            cases h
            exact .begin _ hphase (hlock hl) (Or.inl hready.2)
          · cases h
            exact .stay _ hphase
  · rename_i hphase
    split at h
    · cases h
    · rename_i hl
      split at h
      · cases h
        exact .stay _ hphase
      · split at h
        · cases h
          exact .abort _ _ hphase (hlock hl)
        · split at h
          · cases h
            exact .abort _ _ hphase (hlock hl)
          · rename_i hepoch
            cases h
            exact .begin _ hphase (hlock hl) (Or.inr ⟨_, _, by rw [not_not.mp hepoch]⟩)
  · rename_i hphase
    split at h
    · cases h
    · rename_i hfilter
      cases h
      exact .take _ _ _ hphase hfilter
  · rename_i hphase
    cases h
    exact .fail _ _ hphase
  · rename_i hphase
    split at h
    · rename_i hhead
      cases h
      exact .handOver _ _ hphase hhead
    · cases h
  · rename_i hphase
    cases h
    exact .pushMessage _ _ _ hphase
  · rename_i hphase
    cases h
    exact .wakeTurn hphase
  · rename_i hphase
    cases h
    exact .endTurn _ hphase
  · rename_i hphase
    cases h
    exact .pingPong _ _ hphase rfl
  · rename_i hphase
    cases h
    exact .pingPong _ _ hphase rfl
  · rename_i hphase
    split at h
    · cases h
    · rename_i hl
      cases h
      exact .setFilter _ _ hphase (hlock hl)
  · rename_i hphase
    split at h
    · cases h
    · rename_i hl
      cases h
      exact .reject _ hphase (hlock hl)
  · rename_i hphase
    cases h
    exact .shutdown hphase
  · rename_i hphase
    split at h
    · rename_i hempty
      cases h
      exact .drained _ _ hphase hempty
    · rename_i hmessages
      cases h
      exact .drop _ _ _ _ hphase hmessages
  · rename_i hphase
    cases h
    exact .pushError _ _ hphase
  · rename_i hphase
    cases h
    exact .wake hphase
  · cases h

/-! ### The lock -/

/-- The updates that the turn under way has left to push. -/
def pendingUpdates (s : SubscribeClient ι φ υ) : List υ :=
  match s.lock with
  | some i => (s.threads i).updates
  | none => []

/-- Only the thread that holds the lock is in a turn. -/
def LockInv (s : SubscribeClient ι φ υ) : Prop := ∀ i, (s.threads i).isTurn → s.lock = some i

theorem threads_setPhase_self (s : SubscribeClient ι φ υ) (i : ι) (phase : Phase υ) :
    (s.setPhase i phase).threads i = phase := Function.update_self ..

theorem threads_setPhase_of_ne (s : SubscribeClient ι φ υ) {i j : ι} (phase : Phase υ) (h : j ≠ i) :
    (s.setPhase i phase).threads j = s.threads j := Function.update_of_ne h ..

/-- A thread that is not in a turn afterwards. -/
theorem LockInv.setPhase (h : s.LockInv) {phase : Phase υ} (hphase : phase.isTurn = false) {j : ι}
    (hj : ((s.setPhase i phase).threads j).isTurn) : s.lock = some j ∧ j ≠ i := by
  by_cases heq : j = i
  · rw [heq, threads_setPhase_self, hphase] at hj
    cases hj
  · rw [threads_setPhase_of_ne s phase heq] at hj
    exact ⟨h j hj, heq⟩

/-- A thread that was in a turn, and may be in it afterwards. -/
theorem LockInv.setPhase_turn (h : s.LockInv) (hturn : (s.threads i).isTurn) {phase : Phase υ} {j : ι}
    (hj : ((s.setPhase i phase).threads j).isTurn) : s.lock = some j := by
  by_cases heq : j = i
  · rw [heq]
    exact h i hturn
  · rw [threads_setPhase_of_ne s phase heq] at hj
    exact h j hj

theorem LockInv.threadStep (h : s.LockInv) (hstep : ThreadStep api i s action s' out) :
    s'.LockInv := by
  have hfree : ∀ {phase : Phase υ} {j : ι}, s.lock = none → phase.isTurn = false →
      ¬ ((s.setPhase i phase).threads j).isTurn := by
    intro phase j hlock hphase hj
    have := (h.setPhase hphase hj).1
    rw [hlock] at this
    cases this
  cases hstep with
  | stay => exact h
  | «begin» _ _ hlock _ =>
    intro j hj
    by_cases heq : j = i
    · rw [heq]
      rfl
    · have hj' : (s.threads j).isTurn := by rwa [← threads_setPhase_of_ne s _ heq]
      have := h j hj'
      rw [hlock] at this
      cases this
  | abort _ _ _ hlock =>
    intro j hj
    exact absurd hj (hfree hlock rfl)
  | take _ _ _ hphase _ =>
    intro j hj
    exact h.setPhase_turn (by rw [hphase]; rfl) hj
  | fail =>
    intro j hj
    exact (h.setPhase rfl hj).1
  | handOver _ pushed hphase _ =>
    intro j hj
    have hpushed : (if pushed then Phase.waking else Phase.idle : Phase υ).isTurn = false := by
      cases pushed <;> rfl
    obtain ⟨hj', hne⟩ := h.setPhase hpushed hj
    rw [h i (by rw [hphase]; rfl)] at hj'
    cases hj'
    exact absurd rfl hne
  | pushMessage _ _ _ hphase =>
    intro j hj
    exact h.setPhase_turn (by rw [hphase]; rfl) hj
  | wakeTurn hphase =>
    intro j hj
    exact h.setPhase_turn (by rw [hphase]; rfl) hj
  | endTurn pushed hphase =>
    intro j hj
    have hpushed : (if pushed then Phase.waking else Phase.idle : Phase υ).isTurn = false := by
      cases pushed <;> rfl
    obtain ⟨hj', hne⟩ := h.setPhase hpushed hj
    rw [h i (by rw [hphase]; rfl)] at hj'
    cases hj'
    exact absurd rfl hne
  | pingPong =>
    intro j hj
    exact (h.setPhase rfl hj).1
  | setFilter => exact h
  | reject _ _ hlock =>
    intro j hj
    exact absurd hj (hfree hlock rfl)
  | shutdown =>
    intro j hj
    exact (h.setPhase rfl hj).1
  | drained =>
    intro j hj
    exact (h.setPhase rfl hj).1
  | drop =>
    intro j hj
    exact (h.setPhase rfl hj).1
  | pushError =>
    intro j hj
    exact (h.setPhase rfl hj).1
  | wake =>
    intro j hj
    obtain ⟨hj', hne⟩ := h.setPhase rfl hj
    show (if s.lock = some i then none else s.lock) = some j
    rw [if_neg, hj']
    rw [hj']
    intro heq
    cases heq
    exact hne rfl

/-! ### What the turns take and push -/

end SubscribeClient

namespace ClientEvent

variable {υ : Type*}

def pushed? : ClientEvent υ → Option υ
  | pushed data => some data
  | _ => none

def updates : ClientEvent υ → List υ
  | taken _ updates => updates
  | _ => []

def received? : ClientEvent υ → Option (SubscribeMessage υ)
  | received message => some message
  | _ => none

def woken? : ClientEvent υ → Option ℕ
  | woken waker => some waker
  | _ => none

end ClientEvent

section Traces

variable {υ : Type*}

/-- The updates that the workers have pushed. -/
def produced (tr : List (ClientEvent υ)) : List υ := tr.filterMap (·.pushed?)

/-- The updates of the messages that the workers have taken. -/
def takenUpdates (tr : List (ClientEvent υ)) : List υ := tr.flatMap (·.updates)

/-- What the response stream has yielded. -/
def receivedMessages (tr : List (ClientEvent υ)) : List (SubscribeMessage υ) :=
  tr.filterMap (·.received?)

def receivedUpdates (tr : List (ClientEvent υ)) : List υ :=
  (receivedMessages tr).filterMap (·.update?)

def wokenWakers (tr : List (ClientEvent υ)) : List ℕ := tr.filterMap (·.woken?)

/-- The place of a client after the events: every message was taken from the place it had then, the
one after the message taken before, or the one that was set since. -/
def places : IndexLocation → List (ClientEvent υ) → Option IndexLocation
  | loc, [] => some loc
  | loc, .taken l _ :: es => if l = loc then places l.next es else none
  | _, .moved l :: es => places l es
  | loc, _ :: es => places loc es

@[simp] theorem produced_append (tr out : List (ClientEvent υ)) :
    produced (tr ++ out) = produced tr ++ produced out := List.filterMap_append

@[simp] theorem takenUpdates_append (tr out : List (ClientEvent υ)) :
    takenUpdates (tr ++ out) = takenUpdates tr ++ takenUpdates out := List.flatMap_append

@[simp] theorem receivedMessages_append (tr out : List (ClientEvent υ)) :
    receivedMessages (tr ++ out) = receivedMessages tr ++ receivedMessages out :=
  List.filterMap_append

@[simp] theorem receivedUpdates_append (tr out : List (ClientEvent υ)) :
    receivedUpdates (tr ++ out) = receivedUpdates tr ++ receivedUpdates out := by
  unfold receivedUpdates
  rw [receivedMessages_append, List.filterMap_append]

@[simp] theorem wokenWakers_append (tr out : List (ClientEvent υ)) :
    wokenWakers (tr ++ out) = wokenWakers tr ++ wokenWakers out := List.filterMap_append

theorem places_append : ∀ (loc : IndexLocation) (tr out : List (ClientEvent υ)),
    places loc (tr ++ out) = (places loc tr).bind fun loc => places loc out
  | loc, [], out => rfl
  | loc, e :: tr, out => by
    cases e with
    | taken l us =>
      simp only [List.cons_append, places]
      split
      · exact places_append l.next tr out
      · rfl
    | moved l => exact places_append l tr out
    | pushed => exact places_append loc tr out
    | received => exact places_append loc tr out
    | pending => exact places_append loc tr out
    | closed => exact places_append loc tr out
    | woken => exact places_append loc tr out

end Traces

namespace SubscribeClient

variable {ι φ μ υ : Type*} {api : MessageApi φ μ υ}
  {s s' : SubscribeClient ι φ υ} {i : ι} {action : ThreadAction φ μ} {tr out : List (ClientEvent υ)}

/-- The events of a wake. -/
theorem wake_events (s : SubscribeClient ι φ υ) :
    produced s.wake.2 = [] ∧ takenUpdates s.wake.2 = [] ∧ receivedMessages s.wake.2 = [] ∧
      (∀ loc, places loc s.wake.2 = some loc) ∧ ∀ w, s.waker = some w → w ∈ wokenWakers s.wake.2 := by
  unfold wake
  cases s.waker with
  | none =>
    refine ⟨rfl, rfl, rfl, fun _ => rfl, ?_⟩
    intro w h
    cases h
  | some w =>
    refine ⟨rfl, rfl, rfl, fun _ => rfl, ?_⟩
    intro w' h
    cases h
    exact List.mem_singleton.mpr rfl

/-- The updates to push, of the thread that holds the lock. -/
theorem pendingUpdates_of_turn (h : s.LockInv) {us : List υ} {pushed : Bool}
    (hphase : s.threads i = .turn us pushed) : s.pendingUpdates = us := by
  unfold pendingUpdates
  rw [h i (by rw [hphase]; rfl)]
  show (s.threads i).updates = us
  rw [hphase]
  rfl

theorem pendingUpdates_of_free (h : s.lock = none) : s.pendingUpdates = [] := by
  unfold pendingUpdates
  rw [h]

/-- A thread that holds the lock and has no updates to push. -/
theorem pendingUpdates_of_lock {j : ι} (hlock : s.lock = some j)
    (hphase : (s.threads j).updates = []) : s.pendingUpdates = [] := by
  unfold pendingUpdates
  rw [hlock]
  exact hphase

variable [DecidableEq ι]

/-- A step that leaves the lock alone and the updates of its thread. -/
theorem pendingUpdates_setPhase {phase : Phase υ} (hphase : (s.threads i).updates = phase.updates)
    (hlock : s'.lock = s.lock) (hthreads : s'.threads = (s.setPhase i phase).threads) :
    s'.pendingUpdates = s.pendingUpdates := by
  unfold pendingUpdates
  rw [hlock, hthreads]
  cases hl : s.lock with
  | none => rfl
  | some j =>
    show ((s.setPhase i phase).threads j).updates = (s.threads j).updates
    by_cases heq : j = i
    · rw [heq, threads_setPhase_self, hphase]
    · rw [threads_setPhase_of_ne s phase heq]

/-- What the turns have taken is pushed, or left to push. -/
theorem taken_threadStep (h : s.LockInv) (hstep : ThreadStep api i s action s' out)
    (htaken : takenUpdates tr = produced tr ++ s.pendingUpdates) :
    takenUpdates (tr ++ out) = produced (tr ++ out) ++ s'.pendingUpdates := by
  have hsame : takenUpdates out = [] → produced out = [] → s'.pendingUpdates = s.pendingUpdates →
      takenUpdates (tr ++ out) = produced (tr ++ out) ++ s'.pendingUpdates := by
    intro h₁ h₂ h₃
    rw [takenUpdates_append, produced_append, h₁, h₂, h₃, List.append_nil, List.append_nil]
    exact htaken
  have h' := h.threadStep hstep
  cases hstep with
  | stay => exact hsame rfl rfl rfl
  | «begin» _ _ hlock _ =>
    refine hsame rfl rfl ?_
    rw [pendingUpdates_of_free hlock]
    exact pendingUpdates_of_lock rfl (by rw [beginTurn, threads_setPhase_self]; rfl)
  | abort _ _ _ hlock =>
    refine hsame rfl rfl ?_
    rw [pendingUpdates_of_free hlock]
    exact pendingUpdates_of_lock rfl (by rw [abort, threads_setPhase_self]; rfl)
  | take message filter pushed hphase _ =>
    rw [takenUpdates_append, produced_append, htaken, pendingUpdates_of_turn h hphase,
      pendingUpdates_of_turn (i := i) h' (threads_setPhase_self s i _)]
    simp [takenUpdates, produced, ClientEvent.updates, ClientEvent.pushed?]
  | fail _ _ hphase =>
    exact hsame rfl rfl (pendingUpdates_setPhase (by rw [hphase]; rfl) rfl rfl)
  | handOver _ pushed hphase _ =>
    refine hsame rfl rfl ?_
    rw [pendingUpdates_of_turn h hphase]
    exact pendingUpdates_of_free rfl
  | pushMessage u us pushed hphase =>
    rw [takenUpdates_append, produced_append, htaken, pendingUpdates_of_turn h hphase,
      pendingUpdates_of_turn (i := i) h' (threads_setPhase_self s i _)]
    simp [takenUpdates, produced, ClientEvent.updates, ClientEvent.pushed?]
  | wakeTurn hphase =>
    exact hsame s.wake_events.2.1 s.wake_events.1
      (pendingUpdates_setPhase (i := i) (by rw [hphase]; rfl) rfl rfl)
  | endTurn pushed hphase =>
    refine hsame rfl rfl ?_
    rw [pendingUpdates_of_turn h hphase]
    exact pendingUpdates_of_free rfl
  | pingPong _ _ hphase _ =>
    exact hsame rfl rfl (pendingUpdates_setPhase (i := i) (by rw [hphase]; rfl) rfl rfl)
  | setFilter filter head _ _ =>
    cases head <;> exact hsame rfl rfl rfl
  | reject _ hphase _ =>
    exact hsame rfl rfl (pendingUpdates_setPhase (i := i) (by rw [hphase]; rfl) rfl rfl)
  | shutdown hphase =>
    exact hsame rfl rfl (pendingUpdates_setPhase (by rw [hphase]; rfl) rfl rfl)
  | drained _ _ hphase _ =>
    exact hsame rfl rfl (pendingUpdates_setPhase (by rw [hphase]; rfl) rfl rfl)
  | drop _ _ _ _ hphase _ =>
    exact hsame rfl rfl (pendingUpdates_setPhase (i := i) (by rw [hphase]; rfl) rfl rfl)
  | pushError _ _ hphase =>
    exact hsame rfl rfl (pendingUpdates_setPhase (i := i) (by rw [hphase]; rfl) rfl rfl)
  | wake hphase =>
    refine hsame s.wake_events.2.1 s.wake_events.1 ?_
    by_cases hlock : s.lock = some i
    · rw [pendingUpdates_of_lock hlock (by rw [hphase]; rfl)]
      exact pendingUpdates_of_free (if_pos hlock)
    · exact pendingUpdates_setPhase (i := i) (by rw [hphase]; rfl) (if_neg hlock) rfl

/-- Every message is taken from the place of the client. -/
theorem places_threadStep (hstep : ThreadStep api i s action s' out)
    (hplaces : places .unknown tr = some s.state.head) :
    places .unknown (tr ++ out) = some s'.state.head := by
  rw [places_append, hplaces]
  show places s.state.head out = _
  cases hstep with
  | take => exact if_pos rfl
  | wakeTurn => exact s.wake_events.2.2.2.1 _
  | wake => exact s.wake_events.2.2.2.1 _
  | setFilter filter head _ _ => cases head <;> rfl
  | stay | «begin» | abort | fail | handOver | pushMessage | endTurn | pingPong | reject | shutdown
    | drained | drop | pushError => rfl

/-! ### Updates on their way -/

/-- The updates in the queue. -/
def queuedUpdates (s : SubscribeClient ι φ υ) : List υ := s.messages.filterMap (·.update?)

/-- What a step takes and pushes. -/
theorem pending_threadStep (h : s.LockInv) (hstep : ThreadStep api i s action s' out) :
    s.pendingUpdates ++ takenUpdates out = produced out ++ s'.pendingUpdates := by
  have hbefore : takenUpdates [.taken .unknown s.pendingUpdates] =
      produced [ClientEvent.taken .unknown s.pendingUpdates] ++ s.pendingUpdates := by
    simp [takenUpdates, produced, ClientEvent.updates, ClientEvent.pushed?]
  have htaken := taken_threadStep h hstep hbefore
  rw [takenUpdates_append, produced_append] at htaken
  simpa [takenUpdates, produced, ClientEvent.updates, ClientEvent.pushed?] using htaken

/-- An update in the queue was there before, or was pushed now. -/
theorem mem_queuedUpdates_threadStep (hstep : ThreadStep api i s action s' out) {u : υ}
    (hu : u ∈ s'.queuedUpdates) : u ∈ s.queuedUpdates ∨ u ∈ produced out := by
  have hpush : ∀ {message : SubscribeMessage υ} {phase : Phase υ},
      u ∈ (s.enqueue i message phase).queuedUpdates → u ∈ s.queuedUpdates ∨ message.update? = some u := by
    intro message phase hmem
    obtain ⟨x, hx, hxu⟩ := List.mem_filterMap.mp hmem
    rcases List.mem_append.mp hx with hx | hx
    · exact Or.inl (List.mem_filterMap.mpr ⟨x, hx, hxu⟩)
    · rw [List.mem_singleton] at hx
      exact Or.inr (hx ▸ hxu)
  cases hstep with
  | pushMessage v us pushed hphase =>
    refine (hpush hu).imp_right fun heq => ?_
    cases heq
    exact List.mem_singleton.mpr rfl
  | pingPong _ message hphase hmessage =>
    refine (hpush hu).imp_right fun heq => ?_
    cases message with
    | update | error => cases hmessage
    | ping | pong => cases heq
  | pushError error dropped hphase =>
    refine (hpush hu).imp_right fun heq => ?_
    cases heq
  | drop error dropped message messages hphase hmessages =>
    left
    obtain ⟨x, hx, hxu⟩ := List.mem_filterMap.mp hu
    refine List.mem_filterMap.mpr ⟨x, ?_, hxu⟩
    rw [hmessages]
    exact List.mem_cons_of_mem _ hx
  | stay | «begin» | abort | take | fail | handOver | wakeTurn | endTurn | setFilter | reject
    | shutdown | drained | wake => exact Or.inl hu

/-- What a request alone can change of the state. -/
theorem state_threadStep (hstep : ThreadStep api i s action s' out)
    (hrequest : ∀ filter new, action ≠ .setFilter filter (some new)) :
    s'.state.commitment = s.state.commitment ∧
      s'.state.replayGeneration = s.state.replayGeneration ∧
      s'.state.recoveryEpoch = s.state.recoveryEpoch ∧
      s'.state.replayFromSlot = s.state.replayFromSlot := by
  cases hstep with
  | setFilter filter head _ _ =>
    cases head with
    | none => exact ⟨rfl, rfl, rfl, rfl⟩
    | some new => exact absurd rfl (hrequest filter new)
  | stay | «begin» | abort | take | fail | handOver | pushMessage | wakeTurn | endTurn | pingPong
    | reject | shutdown | drained | drop | pushError | wake => exact ⟨rfl, rfl, rfl, rfl⟩

end SubscribeClient

end Richat
