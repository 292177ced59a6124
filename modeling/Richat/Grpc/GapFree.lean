import Richat.Grpc.ClientSpec

/-!
# What a client receives

A `push_error` empties the queue before it puts its error there, and neither the workers nor the
stream wait for it. `Undisturbed` says that a step does not fall into the middle of one that has
removed something: the stream takes no update then, and no worker pushes one between the end of the
loop and the push of the error. `run_gapFree` is about the runs whose steps are all of this kind: the
client receives a prefix of what the workers pushed for it, then at most one error and nothing else.
The part about errors and wakers holds in every run.
-/

namespace Richat

open Lib

namespace SubscribeClient

variable {ι φ μ υ : Type*}

/-- The step does not fall into the middle of a `push_error` that has removed an update or an
error. -/
def Undisturbed (s : SubscribeClient ι φ υ) : ClientAction ι φ μ → Prop
  | .pop => (s.messages.head?.bind (·.update?)).isSome → ∀ i, (s.threads i).isDirty = false
  | .thread _ .pushMessage => ∀ i, (s.threads i).isDrained = false
  | _ => True

instance decidableUndisturbed [Fintype ι] (s : SubscribeClient ι φ υ) (a : ClientAction ι φ μ) :
    Decidable (s.Undisturbed a) :=
  match a with
  | .pop => inferInstanceAs (Decidable (_ → _))
  | .thread _ .pushMessage => inferInstanceAs (Decidable (∀ _, _))
  | .thread _ (.beginMessages _) | .thread _ (.beginReplay ..) | .thread _ (.take _)
  | .thread _ (.fail _) | .thread _ (.handOver _) | .thread _ .endTurn | .thread _ .ping
  | .thread _ (.pong _) | .thread _ (.setFilter ..) | .thread _ (.reject _) | .thread _ .shutdown
  | .thread _ .drain | .thread _ .pushError | .thread _ .wake | .register | .dropStream =>
    inferInstanceAs (Decidable True)

/-- **What a client receives**: the updates of the messages that were taken from its place, in order
and without a hole, then at most one error and nothing more; and a stream that waits for its waker
while something is queued and no push is under way has been woken. -/
structure GapFree (s : SubscribeClient ι φ υ) (tr : List (ClientEvent υ)) : Prop where
  inPlace : (places .unknown tr).isSome
  taken : produced tr <+: takenUpdates tr
  received : receivedUpdates tr <+: produced tr
  ends : ∀ l₁ error l₂, receivedMessages tr = l₁ ++ .error error :: l₂ → l₂ = []
  woken : ∀ waker, s.parked = some waker → s.messages ≠ [] →
    (∀ i, (s.threads i).owesWake = false) → waker ∈ wokenWakers tr

/-! ### The invariants -/

/-- The invariant of a client that holds in every run. -/
structure ClientInv (s : SubscribeClient ι φ υ) (tr : List (ClientEvent υ)) : Prop where
  lock : s.LockInv
  taken : takenUpdates tr = produced tr ++ s.pendingUpdates
  places : places .unknown tr = some s.state.head
  ends : ∀ l₁ error l₂, receivedMessages tr = l₁ ++ .error error :: l₂ → l₂ = []
  finished : s.finished = false → ∀ error, .error error ∉ receivedMessages tr
  reading : s.polling.isSome → s.finished = false
  polling : ∀ waker, s.polling = some waker → waker ∈ wokenWakers tr ∨ s.waker = some waker
  parked : ∀ waker, s.parked = some waker → waker ∈ wokenWakers tr ∨
    s.waker = some waker ∧ (s.messages = [] ∨ ∃ i, (s.threads i).owesWake)

theorem clientInv_new : ClientInv (.new ι φ υ) [] where
  lock := by
    intro i hi
    cases hi
  taken := rfl
  places := rfl
  ends := by
    intro l₁ error l₂ h
    cases l₁ <;> cases h
  finished := by
    intro _ error h
    cases h
  reading := by
    intro h
    cases h
  polling := by
    intro w h
    cases h
  parked := by
    intro w h
    cases h

/-- The updates between the workers and the client. -/
inductive Flow (s : SubscribeClient ι φ υ) (tr : List (ClientEvent υ)) : Prop
  /-- the client has its error -/
  | closed (hfinished : s.finished) (hreceived : receivedUpdates tr <+: produced tr)
  /-- nothing was removed -/
  | whole (hflow : produced tr = receivedUpdates tr ++ s.messages.filterMap (·.update?))
  /-- something was removed, by a `push_error` under way or by one whose error comes first -/
  | cut (hreceived : receivedUpdates tr <+: produced tr)
    (hguard : (∃ i, (s.threads i).isDirty) ∨ ∃ l₁ error l₂, s.messages = l₁ ++ .error error :: l₂ ∧
      l₁.filterMap (·.update?) = [])

/-- The invariant of these runs. -/
structure FlowInv (s : SubscribeClient ι φ υ) (tr : List (ClientEvent υ)) : Prop where
  inv : ClientInv s tr
  flow : Flow s tr
  drained : ∀ i, (s.threads i).isDrained → s.messages.filterMap (·.update?) = []

section

variable {s s' : SubscribeClient ι φ υ} {tr out : List (ClientEvent υ)}

theorem Flow.received (h : Flow s tr) : receivedUpdates tr <+: produced tr := by
  cases h with
  | closed _ hreceived => exact hreceived
  | whole hflow =>
    rw [hflow]
    exact List.prefix_append _ _
  | cut hreceived _ => exact hreceived

theorem FlowInv.gapFree (h : FlowInv s tr) : GapFree s tr where
  inPlace := by
    rw [h.inv.places]
    rfl
  taken := by
    rw [h.inv.taken]
    exact List.prefix_append _ _
  received := h.flow.received
  ends := h.inv.ends
  woken := by
    intro w hparked hmessages hidle
    rcases h.inv.parked w hparked with hdone | ⟨-, hempty | ⟨i, hi⟩⟩
    · exact hdone
    · exact absurd hempty hmessages
    · rw [hidle i] at hi
      cases hi

/-- A step that leaves the queue alone. -/
theorem Flow.stay (h : Flow s tr) (hfinished : s'.finished = s.finished)
    (hmessages : s'.messages = s.messages)
    (hdirty : (∃ i, (s.threads i).isDirty) → ∃ i, (s'.threads i).isDirty)
    (hproduced : produced out = []) (hreceived : receivedMessages out = []) :
    Flow s' (tr ++ out) := by
  have hp : produced (tr ++ out) = produced tr := by
    rw [produced_append, hproduced, List.append_nil]
  have hr : receivedUpdates (tr ++ out) = receivedUpdates tr := by
    unfold receivedUpdates
    rw [receivedMessages_append, hreceived, List.append_nil]
  cases h with
  | closed hf hreceived => exact .closed (hfinished.trans hf) (by rwa [hp, hr])
  | whole hflow => exact .whole (by rw [hp, hr, hmessages, hflow])
  | cut hreceived hguard =>
    refine .cut (by rwa [hp, hr]) ?_
    rw [hmessages]
    exact hguard.imp_left hdirty

/-- The stream yields a message. -/
theorem Flow.pop (h : Flow s tr) {message : SubscribeMessage υ}
    {messages : List (SubscribeMessage υ)} (hopen : s.finished = false) (hmessages : s.messages = message :: messages)
    (hok : (s.messages.head?.bind (·.update?)).isSome → ∀ i, (s.threads i).isDirty = false) :
    Flow { s with messages, finished := message.isError, polling := none }
      (tr ++ [.received message]) := by
  have hp : produced (tr ++ [.received message]) = produced tr := by
    rw [produced_append]
    exact List.append_nil _
  have hr : receivedUpdates (tr ++ [.received message]) =
      receivedUpdates tr ++ message.update?.toList := by
    rw [receivedUpdates_append]
    cases message <;> rfl
  cases h with
  | closed hf _ =>
    rw [hopen] at hf
    cases hf
  | whole hflow =>
    refine .whole ?_
    rw [hp, hr, hflow, hmessages, List.append_assoc]
    cases message <;> rfl
  | cut hreceived hguard =>
    cases message with
    | update u =>
      -- nothing is taken while something was removed
      rcases hguard with ⟨i, hi⟩ | ⟨l₁, error, l₂, heq, hnone⟩
      · rw [hok (by rw [hmessages]; rfl) i] at hi
        cases hi
      · rw [hmessages] at heq
        cases l₁ with
        | nil => cases heq
        | cons x l₁ =>
          cases heq
          cases hnone
    | error error =>
      refine .closed rfl ?_
      rw [hp, hr]
      show receivedUpdates tr ++ [] <+: _
      rwa [List.append_nil]
    | ping | pong =>
      refine .cut ?_ (hguard.imp_right ?_)
      · rw [hp, hr]
        show receivedUpdates tr ++ [] <+: _
        rwa [List.append_nil]
      · rintro ⟨l₁, error, l₂, heq, hnone⟩
        rw [hmessages] at heq
        cases l₁ with
        | nil => cases heq
        | cons x l₁ =>
          cases heq
          exact ⟨l₁, error, l₂, rfl, hnone⟩

end

/-! ### In every run -/

variable [DecidableEq ι] {api : MessageApi φ μ υ}
  {s s' : SubscribeClient ι φ υ} {i : ι} {action : ThreadAction φ μ} {a : ClientAction ι φ μ}
  {tr out : List (ClientEvent υ)}

/-- What a thread does to the stream and the waker: nothing, or it wakes the stream. -/
theorem ThreadStep.stream (h : ThreadStep api i s action s' out) :
    s'.finished = s.finished ∧ s'.polling = s.polling ∧ s'.parked = s.parked ∧
      receivedMessages out = [] ∧
      ((s'.waker = s.waker ∧ ((s.threads i).owesWake → (s'.threads i).owesWake)) ∨
        ∀ waker, s.waker = some waker → waker ∈ wokenWakers out) := by
  have hset : ∀ {phase : Phase υ}, ((s.threads i).owesWake → phase.owesWake) →
      ((s.threads i).owesWake → ((s.setPhase i phase).threads i).owesWake) := by
    intro phase hphase h
    rw [threads_setPhase_self]
    exact hphase h
  cases h with
  | stay => exact ⟨rfl, rfl, rfl, rfl, Or.inl ⟨rfl, id⟩⟩
  | «begin» _ hphase _ _ =>
    refine ⟨rfl, rfl, rfl, rfl, Or.inl ⟨rfl, ?_⟩⟩
    rw [hphase]
    intro h
    cases h
  | abort => exact ⟨rfl, rfl, rfl, rfl, Or.inl ⟨rfl, hset fun _ => rfl⟩⟩
  | take _ _ _ hphase _ =>
    exact ⟨rfl, rfl, rfl, rfl, Or.inl ⟨rfl, hset (by rw [hphase]; exact id)⟩⟩
  | fail => exact ⟨rfl, rfl, rfl, rfl, Or.inl ⟨rfl, hset fun _ => rfl⟩⟩
  | handOver _ pushed hphase _ =>
    refine ⟨rfl, rfl, rfl, rfl, Or.inl ⟨rfl, hset ?_⟩⟩
    rw [hphase]
    cases pushed <;> exact id
  | pushMessage => exact ⟨rfl, rfl, rfl, rfl, Or.inl ⟨rfl, hset fun _ => rfl⟩⟩
  | wakeTurn => exact ⟨rfl, rfl, rfl, s.wake_events.2.2.1, Or.inr s.wake_events.2.2.2.2⟩
  | endTurn pushed hphase =>
    refine ⟨rfl, rfl, rfl, rfl, Or.inl ⟨rfl, hset ?_⟩⟩
    rw [hphase]
    cases pushed <;> exact id
  | pingPong => exact ⟨rfl, rfl, rfl, rfl, Or.inl ⟨rfl, hset fun _ => rfl⟩⟩
  | setFilter filter head _ _ =>
    cases head <;> exact ⟨rfl, rfl, rfl, rfl, Or.inl ⟨rfl, id⟩⟩
  | reject => exact ⟨rfl, rfl, rfl, rfl, Or.inl ⟨rfl, hset fun _ => rfl⟩⟩
  | shutdown => exact ⟨rfl, rfl, rfl, rfl, Or.inl ⟨rfl, hset fun _ => rfl⟩⟩
  | drained => exact ⟨rfl, rfl, rfl, rfl, Or.inl ⟨rfl, hset fun _ => rfl⟩⟩
  | drop => exact ⟨rfl, rfl, rfl, rfl, Or.inl ⟨rfl, hset fun _ => rfl⟩⟩
  | pushError => exact ⟨rfl, rfl, rfl, rfl, Or.inl ⟨rfl, hset fun _ => rfl⟩⟩
  | wake => exact ⟨rfl, rfl, rfl, s.wake_events.2.2.1, Or.inr s.wake_events.2.2.2.2⟩

/-- Other threads stay where they are, and whoever puts something into the queue will wake the
stream. -/
theorem ThreadStep.queue (h : ThreadStep api i s action s' out) :
    (∀ j ≠ i, s'.threads j = s.threads j) ∧
      ((∃ dropped, s.messages = dropped ++ s'.messages) ∨ (s'.threads i).owesWake) := by
  have hne : ∀ (phase : Phase υ), ∀ j ≠ i, (s.setPhase i phase).threads j = s.threads j :=
    fun phase j hj => threads_setPhase_of_ne s phase hj
  cases h with
  | stay => exact ⟨fun _ _ => rfl, Or.inl ⟨[], rfl⟩⟩
  | setFilter => exact ⟨fun _ _ => rfl, Or.inl ⟨[], rfl⟩⟩
  | pushMessage => exact ⟨hne _, Or.inr (by rw [enqueue, threads_setPhase_self]; rfl)⟩
  | pingPong => exact ⟨hne _, Or.inr (by rw [enqueue, threads_setPhase_self]; rfl)⟩
  | pushError => exact ⟨hne _, Or.inr (by rw [enqueue, threads_setPhase_self]; rfl)⟩
  | drop _ _ message messages _ hmessages => exact ⟨hne _, Or.inl ⟨[message], hmessages⟩⟩
  | «begin» | abort | take | fail | handOver | wakeTurn | endTurn | reject | shutdown | drained
    | wake => exact ⟨hne _, Or.inl ⟨[], rfl⟩⟩

theorem ClientInv.threadStep (h : ClientInv s tr)
    (hstep : ThreadStep api i s action s' out) : ClientInv s' (tr ++ out) := by
  obtain ⟨hfinished, hpolling, hparked, hreceived, hwaker⟩ := hstep.stream
  obtain ⟨hothers, hqueue⟩ := hstep.queue
  have hwoken : ∀ {w}, w ∈ wokenWakers tr → w ∈ wokenWakers (tr ++ out) := by
    intro w hw
    rw [wokenWakers_append]
    exact List.mem_append_left _ hw
  have hnow : ∀ {w}, w ∈ wokenWakers out → w ∈ wokenWakers (tr ++ out) := by
    intro w hw
    rw [wokenWakers_append]
    exact List.mem_append_right _ hw
  refine ⟨h.lock.threadStep hstep, taken_threadStep h.lock hstep h.taken,
    places_threadStep hstep h.places, ?_, ?_, ?_, ?_, ?_⟩
  · rw [receivedMessages_append, hreceived, List.append_nil]
    exact h.ends
  · rw [receivedMessages_append, hreceived, List.append_nil, hfinished]
    exact h.finished
  · rw [hpolling, hfinished]
    exact h.reading
  · intro w hw
    rw [hpolling] at hw
    rcases h.polling w hw with hdone | hsame
    · exact Or.inl (hwoken hdone)
    · rcases hwaker with ⟨heq, -⟩ | hall
      · exact Or.inr (heq.trans hsame)
      · exact Or.inl (hnow (hall w hsame))
  · intro w hw
    rw [hparked] at hw
    rcases h.parked w hw with hdone | ⟨hsame, hcases⟩
    · exact Or.inl (hwoken hdone)
    · rcases hwaker with ⟨heq, howes⟩ | hall
      · refine Or.inr ⟨heq.trans hsame, ?_⟩
        rcases hqueue with ⟨dropped, hmessages⟩ | hi
        · rcases hcases with hempty | ⟨j, hj⟩
          · rw [hempty] at hmessages
            exact Or.inl (List.append_eq_nil_iff.mp hmessages.symm).2
          · by_cases hij : j = i
            · rw [hij] at hj
              exact Or.inr ⟨i, howes hj⟩
            · exact Or.inr ⟨j, by rwa [hothers j hij]⟩
        · exact Or.inr ⟨i, hi⟩
      · exact Or.inl (hnow (hall w hsame))

/-- What a step of the client is. -/
theorem step_cases (h : step api s a = .ok (s', out)) :
    (∃ i action, a = .thread i action ∧ ThreadStep api i s action s' out) ∨
    (a = .register ∧ s.finished ∧ s' = s ∧ out = [.closed]) ∨
    (a = .register ∧ s.finished = false ∧ s' = { s with
        waker := some s.polls
        polls := s.polls + 1
        polling := some s.polls
        parked := none } ∧ out = []) ∨
    (∃ waker, a = .pop ∧ s.polling = some waker ∧ s.messages = [] ∧
      s' = { s with polling := none, parked := some waker } ∧ out = [.pending waker]) ∨
    (∃ message messages, a = .pop ∧ s.polling.isSome ∧ s.messages = message :: messages ∧
      s' = { s with messages, finished := message.isError, polling := none } ∧
      out = [.received message]) ∨
    (a = .dropStream ∧ s' = { s with state := { s.state with finished := true } } ∧ out = []) := by
  unfold step at h
  split at h
  · exact Or.inl ⟨_, _, rfl, threadStep_cases h⟩
  · split at h
    · rename_i hfinished
      cases h
      exact Or.inr (Or.inl ⟨rfl, hfinished, rfl, rfl⟩)
    · rename_i hfinished
      split at h
      · cases h
      · cases h
        exact Or.inr (Or.inr (Or.inl ⟨rfl, by simpa using hfinished, rfl, rfl⟩))
  · split at h
    · cases h
    · rename_i waker hpolling hempty
      cases h
      exact Or.inr (Or.inr (Or.inr (Or.inl ⟨waker, rfl, hpolling, hempty, rfl, rfl⟩)))
    · rename_i message messages hpolling hmessages
      cases h
      exact Or.inr (Or.inr (Or.inr (Or.inr (Or.inl
        ⟨message, messages, rfl, by rw [hpolling]; rfl, hmessages, rfl, rfl⟩))))
  · split at h
    · cases h
    · cases h
      exact Or.inr (Or.inr (Or.inr (Or.inr (Or.inr ⟨rfl, rfl, rfl⟩))))

/-- A message that the stream yields. -/
theorem ends_received {received : List (SubscribeMessage υ)} {message : SubscribeMessage υ}
    (h : ∀ error, .error error ∉ received) {l₁ l₂ : List (SubscribeMessage υ)} {error : Status}
    (heq : received ++ [message] = l₁ ++ .error error :: l₂) : l₂ = [] := by
  induction l₂ using List.reverseRecOn with
  | nil => rfl
  | append_singleton l₂ x _ =>
    have heq' : received ++ [message] = (l₁ ++ .error error :: l₂) ++ [x] := by
      rw [heq, List.append_assoc, List.cons_append]
    rw [List.append_singleton_inj] at heq'
    refine absurd ?_ (h error)
    rw [heq'.1]
    exact List.mem_append_right _ (List.mem_cons_self ..)

/-- An event of the stream. -/
theorem stream_event (tr : List (ClientEvent υ)) {e : ClientEvent υ} (hpushed : e.pushed? = none)
    (hupdates : e.updates = []) (hwoken : e.woken? = none) :
    produced (tr ++ [e]) = produced tr ∧ takenUpdates (tr ++ [e]) = takenUpdates tr ∧
      wokenWakers (tr ++ [e]) = wokenWakers tr := by
  refine ⟨?_, ?_, ?_⟩
  · rw [produced_append]
    simp [produced, hpushed]
  · rw [takenUpdates_append]
    simp [takenUpdates, hupdates]
  · rw [wokenWakers_append]
    simp [wokenWakers, hwoken]

/-- Every step keeps the invariant. -/
theorem ClientInv.step (h : ClientInv s tr) (hstep : SubscribeClient.step api s a = .ok (s', out)) :
    ClientInv s' (tr ++ out) := by
  rcases step_cases hstep with ⟨i, action, -, hthread⟩ | ⟨-, -, rfl, rfl⟩ | ⟨-, hfinished, rfl, rfl⟩ |
    ⟨waker, -, hpolling, hempty, rfl, rfl⟩ | ⟨message, messages, -, hpolling, hmessages, rfl, rfl⟩ |
    ⟨-, rfl, rfl⟩
  · exact h.threadStep hthread
  · obtain ⟨hp, ht, hw⟩ := stream_event tr (e := .closed) rfl rfl rfl
    refine ⟨h.lock, by rw [hp, ht]; exact h.taken, by rw [places_append, h.places]; rfl, ?_, ?_,
      h.reading, by rw [hw]; exact h.polling, by rw [hw]; exact h.parked⟩
    · rw [receivedMessages_append]
      show ∀ l₁ error l₂, receivedMessages tr ++ [] = _ → _
      rw [List.append_nil]
      exact h.ends
    · rw [receivedMessages_append]
      show _ → ∀ error, _ ∉ receivedMessages tr ++ []
      rw [List.append_nil]
      exact h.finished
  · rw [List.append_nil]
    refine ⟨h.lock, h.taken, h.places, h.ends, h.finished, fun _ => hfinished, ?_, ?_⟩
    · intro w hw
      cases hw
      exact Or.inr rfl
    · intro w hw
      cases hw
  · obtain ⟨hp, ht, hw⟩ := stream_event tr (e := .pending waker) rfl rfl rfl
    refine ⟨h.lock, by rw [hp, ht]; exact h.taken, by rw [places_append, h.places]; rfl, ?_, ?_,
      ?_, ?_, ?_⟩
    · rw [receivedMessages_append]
      show ∀ l₁ error l₂, receivedMessages tr ++ [] = _ → _
      rw [List.append_nil]
      exact h.ends
    · rw [receivedMessages_append]
      show _ → ∀ error, _ ∉ receivedMessages tr ++ []
      rw [List.append_nil]
      exact h.finished
    · intro hno
      cases hno
    · intro w hno
      cases hno
    · intro w hparked
      cases hparked
      rw [hw]
      -- the queue was empty after the waker was registered
      exact (h.polling waker hpolling).imp_right fun hwaker => ⟨hwaker, Or.inl hempty⟩
  · obtain ⟨hp, ht, hw⟩ := stream_event tr (e := .received message) rfl rfl rfl
    have hopen := h.finished (h.reading hpolling)
    refine ⟨h.lock, by rw [hp, ht]; exact h.taken, by rw [places_append, h.places]; rfl, ?_, ?_,
      ?_, ?_, ?_⟩
    · rw [receivedMessages_append]
      intro l₁ error l₂ heq
      exact ends_received hopen heq
    · rw [receivedMessages_append]
      intro hnone error hmem
      rcases List.mem_append.mp hmem with hmem | hmem
      · exact hopen error hmem
      · obtain rfl := List.mem_singleton.mp hmem
        cases hnone
    · intro hno
      cases hno
    · intro w hno
      cases hno
    · intro w hparked
      rw [hw]
      refine (h.parked w hparked).imp_right fun ⟨hwaker, hcases⟩ => ⟨hwaker, ?_⟩
      refine hcases.imp_left fun hempty => ?_
      rw [hmessages] at hempty
      cases hempty
  · rw [List.append_nil]
    exact ⟨h.lock, h.taken, h.places, h.ends, h.finished, h.reading, h.polling, h.parked⟩

/-! ### In runs that do not disturb an error -/

/-- A message is put into the queue by a thread that had not removed anything, or whose error it
is. -/
theorem Flow.enqueue (h : Flow s tr) {message : SubscribeMessage υ} {phase : Phase υ}
    (hproduced : produced out = message.update?.toList) (hreceived : receivedMessages out = [])
    (hdirty : (s.threads i).isDirty →
      message.isError ∧ s.messages.filterMap (·.update?) = []) :
    Flow (s.enqueue i message phase) (tr ++ out) := by
  have hp : produced (tr ++ out) = produced tr ++ message.update?.toList := by
    rw [produced_append, hproduced]
  have hr : receivedUpdates (tr ++ out) = receivedUpdates tr := by
    unfold receivedUpdates
    rw [receivedMessages_append, hreceived, List.append_nil]
  have hbelow : receivedUpdates tr <+: produced tr → receivedUpdates (tr ++ out) <+:
      produced (tr ++ out) := by
    intro h
    rw [hp, hr]
    exact h.trans (List.prefix_append _ _)
  cases h with
  | closed hf hreceived => exact .closed hf (hbelow hreceived)
  | whole hflow =>
    refine .whole ?_
    show _ = _ ++ (s.messages ++ [message]).filterMap _
    rw [hp, hr, hflow, List.filterMap_append, List.append_assoc]
    congr 2
  | cut hreceived hguard =>
    refine .cut (hbelow hreceived) ?_
    rcases hguard with ⟨j, hj⟩ | ⟨l₁, error, l₂, hmessages, hnone⟩
    · by_cases hij : j = i
      · rw [hij] at hj
        obtain ⟨herror, hnone⟩ := hdirty hj
        cases message with
        | error error => exact Or.inr ⟨s.messages, error, [], rfl, hnone⟩
        | update | ping | pong => cases herror
      · exact Or.inl ⟨j, by rwa [SubscribeClient.enqueue, threads_setPhase_of_ne s phase hij]⟩
    · refine Or.inr ⟨l₁, error, l₂ ++ [message], ?_, hnone⟩
      show s.messages ++ [message] = _
      rw [hmessages, List.append_assoc, List.cons_append]

/-- The loop of a `push_error` removes a message. -/
theorem Flow.drop (h : Flow s tr) {error : Status} {dropped : Bool} {message : SubscribeMessage υ}
    {messages : List (SubscribeMessage υ)} (hphase : s.threads i = .draining error dropped)
    (hmessages : s.messages = message :: messages) :
    Flow { s.setPhase i (.draining error (dropped || message.counts)) with messages } tr := by
  have hdirty : message.counts = true → ∃ j,
      ((s.setPhase i (.draining error (dropped || message.counts))).threads j).isDirty := by
    intro hcounts
    refine ⟨i, ?_⟩
    rw [threads_setPhase_self, hcounts, Bool.or_true]
    rfl
  have hkeep : (∃ j, (s.threads j).isDirty) → ∃ j,
      ((s.setPhase i (.draining error (dropped || message.counts))).threads j).isDirty := by
    rintro ⟨j, hj⟩
    by_cases hij : j = i
    · refine ⟨i, ?_⟩
      rw [hij, hphase] at hj
      rw [threads_setPhase_self]
      show (dropped || message.counts) = true
      rw [show dropped = true from hj, Bool.true_or]
    · exact ⟨j, by rwa [threads_setPhase_of_ne s _ hij]⟩
  cases hcounts : message.counts with
  | true =>
    rw [← hcounts]
    cases h with
    | closed hf hreceived => exact .closed hf hreceived
    | whole hflow =>
      refine .cut ?_ (Or.inl (hdirty hcounts))
      rw [hflow]
      exact List.prefix_append _ _
    | cut hreceived _ => exact .cut hreceived (Or.inl (hdirty hcounts))
  | false =>
    rw [← hcounts]
    have hupdate : message.update? = none := by
      cases message <;> first | rfl | cases hcounts
    cases h with
    | closed hf hreceived => exact .closed hf hreceived
    | whole hflow =>
      refine .whole ?_
      rw [hflow, hmessages, List.filterMap_cons_none hupdate]
    | cut hreceived hguard =>
      refine .cut hreceived (hguard.imp hkeep ?_)
      rintro ⟨l₁, e, l₂, heq, hnone⟩
      rw [hmessages] at heq
      cases l₁ with
      | nil =>
        cases heq
        cases hcounts
      | cons x l₁ =>
        cases heq
        refine ⟨l₁, e, l₂, rfl, ?_⟩
        rwa [List.filterMap_cons_none hupdate] at hnone

/-- A step of a thread. -/
theorem FlowInv.threadStep (h : FlowInv s tr) (hok : Undisturbed s (.thread i action))
    (hstep : ThreadStep api i s action s' out) : FlowInv s' (tr ++ out) := by
  have hinv := h.inv.threadStep hstep
  obtain ⟨hfinished, -, -, hreceived, -⟩ := hstep.stream
  obtain ⟨hothers, -⟩ := hstep.queue
  have hclean : ∀ {phase : Phase υ}, s.threads i = phase → phase.isDirty = false →
      ((s.threads i).isDirty → (s'.threads i).isDirty) := by
    intro phase hphase hno hi
    rw [hphase, hno] at hi
    cases hi
  have hall : ((s.threads i).isDirty → (s'.threads i).isDirty) →
      (∃ j, (s.threads j).isDirty) → ∃ j, (s'.threads j).isDirty := by
    rintro hdirty ⟨j, hj⟩
    by_cases hij : j = i
    · rw [hij] at hj
      exact ⟨i, hdirty hj⟩
    · exact ⟨j, by rwa [hothers j hij]⟩
  -- a step that leaves the queue alone, and after which its thread is not at the end of a loop
  have hstay : s'.messages = s.messages → ((s.threads i).isDirty → (s'.threads i).isDirty) →
      produced out = [] → (s'.threads i).isDrained = false → FlowInv s' (tr ++ out) := by
    intro hmessages hdirty hproduced hi
    refine ⟨hinv, h.flow.stay hfinished hmessages (hall hdirty) hproduced hreceived, ?_⟩
    intro j hj
    rw [hmessages]
    by_cases hij : j = i
    · rw [hij, hi] at hj
      cases hj
    · rw [hothers j hij] at hj
      exact h.drained j hj
  -- a message that is no update is put into the queue
  have hpush : ∀ {message : SubscribeMessage υ}, s' = s.enqueue i message .waking → out = [] →
      message.update? = none →
      ((s.threads i).isDirty → message.isError ∧ s.messages.filterMap (·.update?) = []) →
      FlowInv s' (tr ++ out) := by
    intro message heq hout hnone hdirty
    subst heq hout
    refine ⟨hinv, h.flow.enqueue (by rw [hnone]; rfl) rfl hdirty, ?_⟩
    intro j hj
    show (s.messages ++ [message]).filterMap _ = []
    rw [List.filterMap_append, List.filterMap_cons_none hnone, List.filterMap_nil, List.append_nil]
    by_cases hij : j = i
    · rw [hij, enqueue, threads_setPhase_self] at hj
      cases hj
    · exact h.drained j (by rwa [enqueue, threads_setPhase_of_ne s _ hij] at hj)
  have hself : ∀ (phase : Phase υ), (s.setPhase i phase).threads i = phase :=
    fun phase => threads_setPhase_self s i phase
  cases hstep with
  | stay _ hphase =>
    refine hstay rfl id rfl ?_
    rw [hphase]
    rfl
  | «begin» _ hphase _ _ =>
    refine hstay rfl (hclean hphase rfl) rfl ?_
    rw [beginTurn, hself]
    rfl
  | abort _ _ hphase _ =>
    refine hstay rfl (hclean hphase rfl) rfl ?_
    rw [abort, hself]
    rfl
  | take _ _ _ hphase _ =>
    refine hstay rfl (hclean hphase rfl) rfl ?_
    rw [hself]
    rfl
  | fail _ _ hphase =>
    refine hstay rfl (hclean hphase rfl) rfl ?_
    rw [hself]
    rfl
  | handOver _ pushed hphase _ =>
    refine hstay rfl (hclean hphase rfl) rfl ?_
    rw [endTurn, hself]
    cases pushed <;> rfl
  | pushMessage u us pushed hphase =>
    refine ⟨hinv, h.flow.enqueue rfl rfl ?_, ?_⟩
    · intro hi
      rw [hphase] at hi
      cases hi
    · intro j hj
      by_cases hij : j = i
      · rw [hij, enqueue, hself] at hj
        cases hj
      · rw [hothers j hij, hok j] at hj
        cases hj
  | wakeTurn hphase =>
    refine hstay rfl (hclean hphase rfl) s.wake_events.1 ?_
    show ((s.setPhase i _).threads i).isDrained = false
    rw [hself]
    rfl
  | endTurn pushed hphase =>
    refine hstay rfl (hclean hphase rfl) rfl ?_
    rw [endTurn, hself]
    cases pushed <;> rfl
  | pingPong _ message hphase hmessage =>
    refine hpush rfl rfl ?_ ?_
    · cases message <;> first | rfl | cases hmessage
    · intro hi
      rw [hphase] at hi
      cases hi
  | setFilter _ head hphase _ =>
    refine hstay rfl id (by cases head <;> rfl) ?_
    rw [hphase]
    rfl
  | reject _ hphase _ =>
    refine hstay rfl (hclean hphase rfl) rfl ?_
    rw [hself]
    rfl
  | shutdown hphase =>
    refine hstay rfl (hclean hphase rfl) rfl ?_
    rw [hself]
    rfl
  | drained error dropped hphase hempty =>
    refine ⟨hinv, h.flow.stay hfinished rfl (hall ?_) rfl hreceived, ?_⟩
    · rw [hphase, hself]
      exact id
    · intro j _
      show s.messages.filterMap _ = []
      rw [hempty]
      rfl
  | drop error dropped message messages hphase hmessages =>
    rw [List.append_nil] at hinv ⊢
    refine ⟨hinv, h.flow.drop hphase hmessages, ?_⟩
    intro j hj
    by_cases hij : j = i
    · rw [hij, hself] at hj
      cases hj
    · have hnone := h.drained j (by rwa [hothers j hij] at hj)
      rw [hmessages] at hnone
      exact List.filterMap_eq_nil_iff.mpr fun x hx =>
        List.filterMap_eq_nil_iff.mp hnone x (List.mem_cons_of_mem _ hx)
  | pushError error dropped hphase =>
    refine hpush rfl rfl rfl ?_
    intro hi
    exact ⟨rfl, h.drained i (by rw [hphase] at hi ⊢; exact hi)⟩
  | wake hphase =>
    refine hstay rfl (hclean hphase rfl) s.wake_events.1 ?_
    show ((s.setPhase i _).threads i).isDrained = false
    rw [hself]
    rfl

/-- A step that does not disturb an error. -/
theorem FlowInv.step (h : FlowInv s tr) (hok : Undisturbed s a)
    (hstep : SubscribeClient.step api s a = .ok (s', out)) : FlowInv s' (tr ++ out) := by
  have hinv := h.inv.step hstep
  have hstay : s'.finished = s.finished → s'.messages = s.messages → s'.threads = s.threads →
      produced out = [] → receivedMessages out = [] → FlowInv s' (tr ++ out) := by
    intro hf hm ht hp hr
    refine ⟨hinv, h.flow.stay hf hm (by rw [ht]; exact id) hp hr, ?_⟩
    rw [ht, hm]
    exact h.drained
  rcases step_cases hstep with ⟨i, action, rfl, hthread⟩ | ⟨-, -, rfl, rfl⟩ | ⟨-, -, rfl, rfl⟩ |
    ⟨waker, -, -, -, rfl, rfl⟩ | ⟨message, messages, rfl, hpolling, hmessages, rfl, rfl⟩ |
    ⟨-, rfl, rfl⟩
  · exact h.threadStep hok hthread
  · exact hstay rfl rfl rfl rfl rfl
  · exact hstay rfl rfl rfl rfl rfl
  · exact hstay rfl rfl rfl rfl rfl
  · refine ⟨hinv, h.flow.pop (h.inv.reading hpolling) hmessages hok, ?_⟩
    intro i hi
    have hnone := h.drained i hi
    rw [hmessages] at hnone
    exact List.filterMap_eq_nil_iff.mpr fun x hx =>
      List.filterMap_eq_nil_iff.mp hnone x (List.mem_cons_of_mem _ hx)
  · exact hstay rfl rfl rfl rfl rfl

/-- **A client receives a prefix without a gap**, in every run that never steps into the middle of a
`push_error`. -/
theorem run_gapFree {acts : List (ClientAction ι φ μ)}
    (hok : AllSteps (step api) Undisturbed (.new ι φ υ) acts)
    (h : run (step api) (.new ι φ υ) acts = .ok (s, tr)) : GapFree s tr := by
  have hnew : FlowInv (.new ι φ υ) [] := by
    refine ⟨clientInv_new, .whole rfl, ?_⟩
    intro i hi
    cases hi
  have hinv : FlowInv s tr :=
    run_induction_of (P := fun _ s tr => FlowInv s tr) hnew
      (fun _ _ _ _ _ _ _ h hok hstep => h.step hok hstep) hok h
  exact hinv.gapFree

/-- Every message gives its slot. -/
def slotApi : MessageApi Unit ParsedMessage ℕ where
  slot := ParsedMessage.slot
  getUpdates := fun _ message _ => [message.slot]

/-- A worker pushes one status, and the client takes it. -/
def oneStatus : List (ClientAction (Fin 2) Unit ParsedMessage) :=
  [.thread 0 (.setFilter () (some ⟨.memory 9, .processed, none, 0⟩)), .thread 1 (.beginMessages 0),
    .thread 1 (.take (some ⟨0, .slot ⟨5, .slotProcessed, none, []⟩⟩)), .thread 1 .pushMessage,
    .thread 1 .endTurn, .thread 1 .wake, .register, .pop]

theorem run_gapFree_status : ∃ s tr,
    run (step slotApi) (.new (Fin 2) Unit ℕ) oneStatus =
      .ok (s, tr) ∧ receivedUpdates tr = [5] ∧ GapFree s tr := by
  obtain ⟨s, tr, hrun, hreceived⟩ := exists_of_returns
    (x := run (step slotApi) (.new (Fin 2) Unit ℕ) oneStatus)
    (p := fun _ tr => receivedUpdates tr = [5]) (by decide +kernel)
  have hok : AllSteps (step slotApi) Undisturbed
      (.new (Fin 2) Unit ℕ) oneStatus :=
    allSteps_of_checkSteps (p := fun s a => decide (Undisturbed s a))
      (fun _ _ => of_decide_eq_true) (by decide +kernel)
  exact ⟨s, tr, hrun, of_decide_eq_true hreceived, run_gapFree hok hrun⟩

/-- A worker takes three statuses; after the second one the shutdown empties the queue, and after the
third one it pushes its error. -/
def shutdownInTurn : List (ClientAction (Fin 3) Unit ParsedMessage) :=
  [.thread 0 (.setFilter () (some ⟨.memory 9, .processed, none, 0⟩)), .thread 1 (.beginMessages 0),
    .thread 1 (.take (some ⟨0, .slot ⟨5, .slotProcessed, none, []⟩⟩)), .thread 1 .pushMessage,
    .thread 1 (.take (some ⟨1, .slot ⟨6, .slotProcessed, none, []⟩⟩)), .thread 1 .pushMessage,
    .thread 2 .shutdown, .thread 2 .drain, .thread 2 .drain, .thread 2 .drain,
    .thread 1 (.take (some ⟨2, .slot ⟨7, .slotProcessed, none, []⟩⟩)), .thread 1 .pushMessage,
    .thread 2 .pushError, .register, .pop]

/-- The client receives the third status without the first two. -/
theorem shutdown_drops_updates : ∃ s tr,
    run (step slotApi) (.new (Fin 3) Unit ℕ) shutdownInTurn =
      .ok (s, tr) ∧ produced tr = [5, 6, 7] ∧ receivedUpdates tr = [7] ∧ ¬ GapFree s tr := by
  obtain ⟨s, tr, hrun, h⟩ := exists_of_returns
    (x := run (step slotApi) (.new (Fin 3) Unit ℕ) shutdownInTurn)
    (p := fun _ tr => produced tr = [5, 6, 7] ∧ receivedUpdates tr = [7]) (by decide +kernel)
  obtain ⟨hproduced, hreceived⟩ := of_decide_eq_true h
  refine ⟨s, tr, hrun, hproduced, hreceived, fun hgap => ?_⟩
  have hbelow := hgap.received
  rw [hproduced, hreceived] at hbelow
  exact absurd hbelow (by decide)

end SubscribeClient

end Richat
