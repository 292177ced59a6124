import Richat.Plugin.ChannelRing

/-!
# Receivers of the plugin channel

`TaskStep` is what an action of a receiver does to it, and `Chan.step_cases` tells the actions of the
receivers from those of the senders. `ChanInv` says that the waker of a pending receiver is registered or
taken, and that nothing is there for a registered one unless a push or a close is in progress, which will
take the wakers: the cell is looked at again under the lock before the waker is stored.

`Delivers` says what a receiver owes from its start on, and `ChanInv.delivers` that it does so when it starts
at a position of the ring, or at the next one.
-/

namespace Richat.Plugin

open Lib

variable {E C : Type}

/-- What an action of the receiver does to its task. -/
inductive TaskStep (shared : Shared) (i : ℕ) (task : Task) : Task → List (ChanEvent E C) → Prop where
  | poll : task.poll = .idle ∨ task.poll = .pending → task.receiver.finished = false →
      TaskStep shared i task ⟨task.receiver, .reading⟩ []
  | locking : task.poll = .reading → TaskStep shared i task ⟨task.receiver, .locking⟩ []
  | closed : TaskStep shared i task ⟨{ task.receiver with finished := true }, .idle⟩ [.closed i]
  | lagged (next : ℕ) : task.poll = .reading ∨ task.poll = .locking →
      ((shared.item task.receiver.next).pos = task.receiver.next ∧
          (shared.item task.receiver.next).data = none ∨
        task.receiver.next < (shared.item task.receiver.next).pos) →
      TaskStep shared i task ⟨{ task.receiver with next, finished := true }, .idle⟩ [.lagged i]
  | skip (d : PluginNotification × Bytes) : task.poll = .reading ∨ task.poll = .locking →
      (shared.item task.receiver.next).pos = task.receiver.next →
      (shared.item task.receiver.next).data = some d → task.receiver.enabled d.1 = false →
      TaskStep shared i task ⟨{ task.receiver with next := task.receiver.next + 1 }, .reading⟩ []
  | item (d : PluginNotification × Bytes) : task.poll = .reading ∨ task.poll = .locking →
      (shared.item task.receiver.next).pos = task.receiver.next →
      (shared.item task.receiver.next).data = some d → task.receiver.enabled d.1 = true →
      TaskStep shared i task ⟨{ task.receiver with next := task.receiver.next + 1 }, .idle⟩ [.item i d.2]
  | pending : task.poll = .locking → (shared.item task.receiver.next).closed = false →
      (shared.item task.receiver.next).pos < task.receiver.next →
      TaskStep shared i task ⟨task.receiver, .pending⟩ [.pending i]

/-- An action of a receiver. -/
def ChanAction.isTask : ChanAction E C → Bool
  | .poll _ | .read _ | .register _ => true
  | _ => false

theorem taskStep_readItem {s : Chan E C} {i : ℕ} {r : Receiver} {poll : Poll}
    (hpoll : poll = .reading ∨ poll = .locking) (hpos : (s.shared.item r.next).pos = r.next) :
    ∃ task', (s.readItem i r (s.shared.item r.next)).1 = s.setTask i task' ∧ task'.poll ≠ .pending ∧
      TaskStep s.shared i ⟨r, poll⟩ task' (s.readItem i r (s.shared.item r.next)).2 := by
  rw [Chan.readItem, Receiver.readItem]
  rcases hdata : (s.shared.item r.next).data with _ | ⟨d, data⟩
  · exact ⟨_, rfl, by simp, .lagged _ hpoll (.inl ⟨hpos, hdata⟩)⟩
  · cases henabled : r.enabled d with
    | false =>
      have hskip : ({ r with next := r.next + 1 } : Receiver).enabled d = false := henabled
      simp only [hskip, Bool.false_eq_true, if_false]
      exact ⟨_, rfl, by simp, .skip (d, data) hpoll hpos hdata henabled⟩
    | true =>
      have hitem : ({ r with next := r.next + 1 } : Receiver).enabled d = true := henabled
      simp only [hitem, if_true]
      exact ⟨_, rfl, by simp, .item (d, data) hpoll hpos hdata henabled⟩

/-- What an action of a receiver is. A receiver that is not refused the lock registers its waker if it is
pending. -/
theorem Chan.step_task {s s' : Chan E C} {a : ChanAction E C} {out : List (ChanEvent E C)}
    (ha : a.isTask = true) (h : Chan.step s a = .ok (s', out)) :
    (s' = s ∧ ∃ i, out = [.finished i]) ∨
    ∃ i task task', s.tasks[i]? = some task ∧ TaskStep s.shared i task task' out ∧
      (s' = s.setTask i task' ∧ task'.poll ≠ .pending ∨
        s.pushing = none ∧ task'.poll = .pending ∧ s' =
          { s.setTask i task' with
            shared := { s.shared with state.wakers := s.shared.state.wakers ++ [i] } }) := by
  cases a with
  | poll i =>
    simp only [step] at h
    split at h
    · rename_i r hget
      split at h
      · cases h
        exact .inl ⟨rfl, i, rfl⟩
      · rename_i hfinished
        cases h
        exact .inr ⟨i, _, _, hget, .poll (.inl rfl) (by simpa using hfinished), .inl ⟨rfl, by simp⟩⟩
    · rename_i r hget
      split at h
      · cases h
        exact .inl ⟨rfl, i, rfl⟩
      · rename_i hfinished
        cases h
        exact .inr ⟨i, _, _, hget, .poll (.inr rfl) (by simpa using hfinished), .inl ⟨rfl, by simp⟩⟩
    · cases h
  | read i =>
    simp only [step] at h
    split at h
    · rename_i r hget
      right
      split at h
      · cases h
        exact ⟨i, _, _, hget, .closed, .inl ⟨rfl, by simp⟩⟩
      · split at h
        · cases h
          exact ⟨i, _, _, hget, .locking rfl, .inl ⟨rfl, by simp⟩⟩
        · rename_i hpos
          obtain ⟨task', hs', hne, hstep⟩ := taskStep_readItem (s := s) (i := i) (.inl rfl) (not_not.mp hpos)
          have h := Except.ok.inj h
          rw [Prod.ext_iff] at h
          obtain ⟨rfl, rfl⟩ := h
          exact ⟨i, _, task', hget, hstep, .inl ⟨hs', hne⟩⟩
    · cases h
  | register i =>
    simp only [step] at h
    split at h
    · rename_i r hpushing hget
      right
      split at h
      · cases h
        exact ⟨i, _, _, hget, .closed, .inl ⟨rfl, by simp⟩⟩
      · rename_i hclosed
        split at h
        · rename_i hpos
          split at h
          · rename_i hlt
            cases h
            exact ⟨i, _, _, hget, .pending rfl (by simpa using hclosed) hlt,
              .inr ⟨hpushing, rfl, rfl⟩⟩
          · rename_i hlt
            cases h
            refine ⟨i, _, _, hget, .lagged r.next (.inr rfl) (.inr ?_), .inl ⟨rfl, by simp⟩⟩
            exact lt_of_le_of_ne (not_lt.mp hlt) (Ne.symm hpos)
        · rename_i hpos
          obtain ⟨task', hs', hne, hstep⟩ := taskStep_readItem (s := s) (i := i) (.inr rfl) (not_not.mp hpos)
          have h := Except.ok.inj h
          rw [Prod.ext_iff] at h
          obtain ⟨rfl, rfl⟩ := h
          exact ⟨i, _, task', hget, hstep, .inl ⟨hs', hne⟩⟩
    · cases h
  | _ => cases ha

/-! ### No wakeup is lost -/

/-- A registered receiver that waits for the push or the close in progress, or for the next one. -/
structure Waits (s : Chan E C) (i : ℕ) (r : Receiver) : Prop where
  registered : i ∈ s.shared.state.wakers
  cell : s.pushing = none → (s.shared.item r.next).pos < r.next
  closed : (s.shared.item r.next).closed = true → s.closing ≠ []

structure ChanInv (k : ℕ) (log : List (Pushed E C)) (s : Chan E C) : Prop where
  ring : RingInv k log s.shared
  pending : ∀ i task, s.tasks[i]? = some task → task.poll = .pending →
    i ∈ s.woken ∨ Waits s i task.receiver

theorem Shared.closed_setItem {s : Shared} {pos : ℕ} {item : Item}
    (h : item.closed = (s.item pos).closed) (p : ℕ) :
    ((s.setItem pos item).item p).closed = (s.item p).closed := by
  show (Function.update s.buffer (s.getIdx pos) item (s.getIdx p)).closed = (s.buffer (s.getIdx p)).closed
  by_cases hidx : s.getIdx p = s.getIdx pos
  · rw [hidx, Function.update_self]
    exact h
  · rw [Function.update_of_ne hidx]

theorem Shared.pos_setItem {s : Shared} {pos : ℕ} {item : Item} (h : item.pos = (s.item pos).pos)
    (p : ℕ) : ((s.setItem pos item).item p).pos = (s.item p).pos := by
  show (Function.update s.buffer (s.getIdx pos) item (s.getIdx p)).pos = (s.buffer (s.getIdx p)).pos
  by_cases hidx : s.getIdx p = s.getIdx pos
  · rw [hidx, Function.update_self]
    exact h
  · rw [Function.update_of_ne hidx]

theorem Shared.store_fields (s : Shared) (message : ProtobufMessage E C) (data : Bytes) :
    (s.store message data).1.state.tail = s.state.tail + 1 ∧
      (s.store message data).1.state.wakers = s.state.wakers ∧
      (s.store message data).1.state.slots =
        { s.state with tail := s.state.tail + 1 }.trackSlot message ∧
      ∀ p, ((s.store message data).1.item p).closed = (s.item p).closed := by
  unfold Shared.store
  dsimp only
  split
  · exact ⟨rfl, rfl, rfl, Shared.closed_setItem (s := { s with state := _ }) rfl⟩
  · exact ⟨rfl, rfl, rfl, Shared.closed_setItem (s := { s with state := _ }) rfl⟩

theorem Shared.dropHead_closed {s s' : Shared} {removed removed' : Option Slot}
    (h : s.dropHead removed = some (s', removed')) (p : ℕ) :
    (s'.item p).closed = (s.item p).closed := by
  unfold Shared.dropHead at h
  dsimp only at h
  split at h
  · cases h
  · rename_i data hdata
    simp only [Option.some.injEq, Prod.mk.injEq] at h
    obtain ⟨rfl, -⟩ := h
    refine Shared.closed_setItem (s := { s with state := s.state.evict data }) ?_ p
    rfl

theorem Shared.removeSlots_fields (s : Shared) (removed : Option Slot) :
    (s.removeSlots removed).state.head = s.state.head ∧ (s.removeSlots removed).state.tail = s.state.tail ∧
      (s.removeSlots removed).state.wakers = s.state.wakers ∧
      ∀ p, (s.removeSlots removed).item p = s.item p := by
  cases removed <;> exact ⟨rfl, rfl, rfl, fun _ => rfl⟩

namespace ChanInv

variable {k : ℕ} {log : List (Pushed E C)} {s s' : Chan E C} {a : ChanAction E C}
  {out : List (ChanEvent E C)}

theorem new {config : ConfigChannel} (hk : nextPowerOfTwo config.maxMessages = 2 ^ k) :
    ChanInv (E := E) (C := C) k [] (.new config) where
  ring := .new hk
  pending := by
    intro i task h
    cases h

/-- Every registered receiver is woken. -/
theorem takeWakers (h : ChanInv k log s) {pushing : Option (Pushing E C)} {closing : List ℕ} :
    ChanInv k log
      { s with
        shared := { s.shared with state.wakers := [] }
        pushing
        woken := s.woken ++ s.shared.state.wakers
        closing } := by
  refine ⟨h.ring.congr rfl rfl rfl rfl, fun i task hget hpoll => .inl ?_⟩
  rcases h.pending i task hget hpoll with hwoken | hwaits
  · exact List.mem_append_left _ hwoken
  · exact List.mem_append_right _ hwaits.registered

/-- A receiver changes; if it is pending, it waits. -/
theorem setTask (h : ChanInv k log s) {i : ℕ} {task : Task}
    (hpending : task.poll = .pending → Waits s i task.receiver) : ChanInv k log (s.setTask i task) := by
  refine ⟨h.ring, fun j t hget hpoll => ?_⟩
  simp only [Chan.setTask, List.getElem?_set] at hget
  split at hget
  · rename_i hij
    split at hget
    · cases hget
      subst hij
      obtain ⟨hr, hc, hcl⟩ := hpending hpoll
      exact .inr ⟨hr, hc, hcl⟩
    · cases hget
  · rcases h.pending j t hget hpoll with hwoken | ⟨hr, hc, hcl⟩
    · exact .inl hwoken
    · exact .inr ⟨hr, hc, hcl⟩

/-- A registration. -/
theorem register (h : ChanInv k log s) (i : ℕ) :
    ChanInv k log { s with shared := { s.shared with state.wakers := s.shared.state.wakers ++ [i] } } := by
  refine ⟨h.ring.congr rfl rfl rfl rfl, fun j t hget hpoll => ?_⟩
  rcases h.pending j t hget hpoll with hwoken | ⟨hr, hc, hcl⟩
  · exact .inl hwoken
  · exact .inr ⟨List.mem_append_left _ hr, hc, hcl⟩

/-- The state of the sender changes while it holds the lock. -/
theorem sender (h : ChanInv k log s) {pushing : Pushing E C} {shared : Shared} {log' : List (Pushed E C)}
    (hring : RingInv k log' shared) (hwakers : shared.state.wakers = s.shared.state.wakers)
    (hclosed : ∀ p, (shared.item p).closed = (s.shared.item p).closed) :
    ChanInv k log' { s with shared, pushing := some pushing } := by
  refine ⟨hring, fun j t hget hpoll => ?_⟩
  rcases h.pending j t hget hpoll with hwoken | ⟨hr, -, hcl⟩
  · exact .inl hwoken
  · refine .inr ⟨?_, ?_, ?_⟩
    · show j ∈ shared.state.wakers
      rw [hwakers]
      exact hr
    · intro hnone
      cases hnone
    · intro hcell
      rw [hclosed] at hcell
      exact hcl hcell

theorem wake_getElem? {tasks : List Task} {i j : ℕ} {task : Task}
    (h : (tasks.modify i .wake)[j]? = some task) (hpoll : task.poll = .pending) :
    j ≠ i ∧ tasks[j]? = some task := by
  rw [List.getElem?_modify] at h
  obtain ⟨task', hget, hwake⟩ := Option.map_eq_some_iff.mp h
  by_cases hij : i = j
  · rw [if_pos hij] at hwake
    subst hwake
    obtain ⟨r, poll⟩ := task'
    cases poll <;> simp [Task.wake] at hpoll
  · rw [if_neg hij] at hwake
    exact ⟨Ne.symm hij, hwake ▸ hget⟩

/-- A woken receiver is not pending anymore. -/
theorem wake (h : ChanInv k log s) {i j : ℕ} (hj : s.woken[j]? = some i) :
    ChanInv k log { s with
      woken := s.woken.eraseIdx j
      tasks := s.tasks.modify i .wake } := by
  refine ⟨h.ring, fun l t hget hpoll => ?_⟩
  obtain ⟨hne, hget⟩ := wake_getElem? hget hpoll
  rcases h.pending l t hget hpoll with hwoken | ⟨hr, hc, hcl⟩
  · left
    obtain ⟨n, hn⟩ := List.mem_iff_getElem?.mp hwoken
    refine List.mem_eraseIdx_iff_getElem?.mpr ⟨n, ?_, hn⟩
    rintro rfl
    exact hne (Option.some.inj (hn.symm.trans hj))
  · exact .inr ⟨hr, hc, hcl⟩

/-- A cell is closed: the wakers are taken when all are. -/
theorem closeCell (h : ChanInv k log s) {j idx : ℕ} (hj : s.closing[j]? = some idx) :
    ChanInv k log { s with
      shared := s.shared.setItem idx { s.shared.item idx with closed := true }
      closing := s.closing.set j (idx + 1) } := by
  refine ⟨h.ring.closeCell, fun l t hget hpoll => ?_⟩
  rcases h.pending l t hget hpoll with hwoken | ⟨hr, hc, -⟩
  · exact .inl hwoken
  · refine .inr ⟨hr, fun hnone => ?_, fun _ => ?_⟩
    · have hpos : ((s.shared.setItem idx { s.shared.item idx with closed := true }).item
          t.receiver.next).pos = (s.shared.item t.receiver.next).pos := by
        refine Shared.pos_setItem ?_ _
        rfl
      exact hpos.trans_lt (hc hnone)
    · have hlt := (List.getElem?_eq_some_iff.mp hj).1
      intro hnil
      have hlen : (s.closing.set j (idx + 1)).length = 0 := congrArg List.length hnil
      rw [List.length_set] at hlen
      omega

/-- Every action keeps the invariant. -/
theorem step (h : ChanInv k log s) (hstep : Chan.step s a = .ok (s', out)) :
    ChanInv k (log ++ pushedItems out) s' := by
  by_cases ha : a.isTask = true
  · rcases Chan.step_task ha hstep with ⟨rfl, i, rfl⟩ | ⟨i, task, task', hget, htask, hs'⟩
    · simpa [pushedItems, ChanEvent.pushed?] using h
    · have hout : pushedItems out = [] := by cases htask <;> rfl
      rw [hout, List.append_nil]
      rcases hs' with ⟨rfl, hne⟩ | ⟨hpushing, hpending, rfl⟩
      · exact h.setTask fun hpoll => absurd hpoll hne
      · refine (h.register i).setTask fun _ => ?_
        cases htask with
        | pending hpoll hclosed hlt =>
          refine ⟨List.mem_append_right _ (List.mem_singleton_self i), fun _ => hlt, fun hcell => ?_⟩
          exact absurd (hcell.symm.trans hclosed) (by simp)
        | _ => cases hpending
  · cases a with
    | push input =>
      simp only [Chan.step] at hstep
      split at hstep
      · cases hstep
        rw [pushedItems_nil, List.append_nil]
        exact h.sender h.ring rfl fun _ => rfl
      · cases hstep
    | store =>
      simp only [Chan.step] at hstep
      split at hstep
      · rename_i encode message messages hpushing
        cases hstep
        obtain ⟨-, hwakers, -, hclosed⟩ := s.shared.store_fields message (encode message)
        exact h.sender h.ring.store.1 hwakers hclosed
      · cases hstep
    | dropHead =>
      simp only [Chan.step] at hstep
      split at hstep
      · split at hstep
        · rename_i hextra
          split at hstep
          · cases hstep
          · rename_i r hdrop
            cases hstep
            rw [pushedItems_nil, List.append_nil]
            have hlt := (of_decide_eq_true hextra).2
            obtain ⟨hring, -, -, -, hwakers, -⟩ := h.ring.dropHead hlt hdrop
            exact h.sender hring hwakers (Shared.dropHead_closed hdrop)
        · cases hstep
      · cases hstep
    | removeSlots =>
      simp only [Chan.step] at hstep
      split at hstep
      · rename_i encode messages removed hpushing
        split at hstep
        · cases hstep
        · cases hstep
          rw [pushedItems_nil, List.append_nil]
          obtain ⟨-, -, hwakers, hitem⟩ := s.shared.removeSlots_fields removed
          exact h.sender h.ring.removeSlots hwakers fun p => congrArg Item.closed (hitem p)
      · cases hstep
    | unlock =>
      simp only [Chan.step] at hstep
      split at hstep
      · cases hstep
        rw [pushedItems_nil, List.append_nil]
        exact h.takeWakers
      · cases hstep
    | wake j =>
      simp only [Chan.step] at hstep
      split at hstep
      · rename_i i hj
        cases hstep
        rw [pushedItems_nil, List.append_nil]
        exact h.wake hj
      · cases hstep
    | close =>
      simp only [Chan.step] at hstep
      cases hstep
      rw [pushedItems_nil, List.append_nil]
      refine ⟨h.ring, fun l t hget hpoll => ?_⟩
      rcases h.pending l t hget hpoll with hwoken | ⟨hr, hc, -⟩
      · exact .inl hwoken
      · exact .inr ⟨hr, hc, fun _ => by simp⟩
    | closeCell j =>
      simp only [Chan.step] at hstep
      split at hstep
      · rename_i idx hj
        split at hstep
        · cases hstep
          rw [pushedItems_nil, List.append_nil]
          exact h.closeCell hj
        · cases hstep
      · cases hstep
    | closeWake j =>
      simp only [Chan.step] at hstep
      split at hstep
      · rename_i idx hpushing hj
        split at hstep
        · cases hstep
        · cases hstep
          rw [pushedItems_nil, List.append_nil]
          exact h.takeWakers
      · cases hstep
    | subscribe replayFromSlot filter =>
      simp only [Chan.step] at hstep
      split at hstep
      · rename_i r hpushing hr
        cases hstep
        rw [pushedItems_nil, List.append_nil]
        refine ⟨h.ring, fun l t hget hpoll => ?_⟩
        simp only [List.getElem?_append, List.getElem?_singleton] at hget
        split at hget
        · rcases h.pending l t hget hpoll with hwoken | ⟨hr, hc, hcl⟩
          · exact .inl hwoken
          · exact .inr ⟨hr, hc, hcl⟩
        · split at hget
          · cases hget
            cases hpoll
          · cases hget
      · cases hstep
        simpa [pushedItems, ChanEvent.pushed?] using h
      · cases hstep
    | _ => exact absurd rfl ha

theorem run_inv {config : ConfigChannel} {actions : List (ChanAction E C)}
    {events : List (ChanEvent E C)} (hk : nextPowerOfTwo config.maxMessages = 2 ^ k)
    (h : run Chan.step (.new config) actions = .ok (s, events)) :
    ChanInv k (pushedItems events) s := by
  refine run_induction (P := fun _ s events => ChanInv k (pushedItems events) s) (.new hk) ?_ h
  intro _ s events a s' out _ hinv hstep
  rw [pushedItems, List.filterMap_append]
  exact hinv.step hstep

end ChanInv

/-! ### What a receiver yields -/

/-- What the receiver yields of the messages: the data of those that its filter enables. -/
def Receiver.passed (r : Receiver) (log : List (Pushed E C)) : List Bytes :=
  (log.filter fun p => r.enabled (.ofMessage p.message)).map (·.data)

theorem Receiver.passed_append (r : Receiver) (l l' : List (Pushed E C)) :
    r.passed (l ++ l') = r.passed l ++ r.passed l' := by
  rw [passed, List.filter_append, List.map_append]
  rfl

theorem pushedItems_append (events out : List (ChanEvent E C)) :
    pushedItems (events ++ out) = pushedItems events ++ pushedItems out := List.filterMap_append

theorem yieldedBy_append (i : ℕ) (events out : List (ChanEvent E C)) :
    yieldedBy i (events ++ out) = yieldedBy i events ++ yieldedBy i out := List.filterMap_append

/-- **What the receiver `i` owes**, which starts as `r`. The messages of the channel are numbered from the
position `first` on, and `log` are those that were pushed before. It yields what its filter enables of the
messages from its position on, in order and without omission; it has yielded all of them when it is pending;
it lags only when the message at its position was evicted; and while it is pending and its waker is not taken,
it is registered, there is no message for it unless a push is in progress, and it is not closed unless a close
is in progress. -/
structure Delivers (first : ℕ) (log : List (Pushed E C)) (s : Chan E C) (i : ℕ) (r : Receiver) : Prop where
  inOrder : ∀ acts s' events, run Chan.step s acts = .ok (s', events) →
    ∃ n, yieldedBy i events = r.passed (((log ++ pushedItems events).drop (r.next - first)).take n)
  complete : ∀ acts s' events a s'', run Chan.step s acts = .ok (s', events) →
    Chan.step s' a = .ok (s'', [.pending i]) →
    yieldedBy i events = r.passed ((log ++ pushedItems events).drop (r.next - first))
  lagged : ∀ acts s' events a s'', run Chan.step s acts = .ok (s', events) →
    Chan.step s' a = .ok (s'', [.lagged i]) →
    ∃ task, s'.tasks[i]? = some task ∧ r.next ≤ task.receiver.next ∧
      task.receiver.next < s'.shared.state.head
  woken : ∀ acts s' events task, run Chan.step s acts = .ok (s', events) → s'.tasks[i]? = some task →
    task.poll = .pending → i ∈ s'.woken ∨ i ∈ s'.shared.state.wakers ∧
      (s'.pushing = none →
        yieldedBy i events = r.passed ((log ++ pushedItems events).drop (r.next - first))) ∧
      ((s'.shared.item task.receiver.next).closed = true → s'.closing ≠ [])

/-- What the receiver has yielded up to its position. -/
structure TaskInv (k : ℕ) (r₀ : Receiver) (log : List (Pushed E C)) (got : List Bytes) (task : Task) :
    Prop where
  polled : task.poll ≠ .idle → task.receiver.finished = false
  receiver : task.receiver.finished = false → task.receiver = { r₀ with next := task.receiver.next }
  next : task.receiver.finished = false → r₀.next ≤ task.receiver.next ∧
    task.receiver.next ≤ 2 ^ k + 1 + log.length ∧
    got = r₀.passed ((log.drop (r₀.next - (2 ^ k + 1))).take (task.receiver.next - r₀.next))
  inOrder : ∃ n, got = r₀.passed ((log.drop (r₀.next - (2 ^ k + 1))).take n)

namespace TaskInv

variable {k : ℕ} {r₀ : Receiver} {log log' : List (Pushed E C)} {got : List Bytes} {task task' : Task}

theorem start (hnext : r₀.next ≤ 2 ^ k + 1 + log.length) (hfinished : r₀.finished = false) {poll : Poll} :
    TaskInv k r₀ log [] ⟨r₀, poll⟩ where
  polled := fun _ => hfinished
  receiver := fun _ => rfl
  next := fun _ => ⟨le_rfl, hnext, by rw [Nat.sub_self, List.take_zero]; rfl⟩
  inOrder := ⟨0, by rw [List.take_zero]; rfl⟩

/-- Messages are pushed. -/
theorem push (h : TaskInv k r₀ log got task) (hstart : 2 ^ k + 1 ≤ r₀.next) :
    TaskInv k r₀ (log ++ log') got task := by
  refine ⟨h.polled, h.receiver, fun hf => ?_, ?_⟩
  · obtain ⟨hle, hle', hgot⟩ := h.next hf
    refine ⟨hle, ?_, ?_⟩
    · rw [List.length_append]
      omega
    · obtain ⟨n, hn, heq⟩ := LiveInv.take_drop_append log log' (r₀.next - (2 ^ k + 1))
        (task.receiver.next - r₀.next)
      rw [heq (by omega)] at hn
      rw [hn]
      exact hgot
  · obtain ⟨n, hgot⟩ := h.inOrder
    obtain ⟨n', hn, -⟩ := LiveInv.take_drop_append log log' (r₀.next - (2 ^ k + 1)) n
    exact ⟨n', by rw [hn]; exact hgot⟩

/-- The position stays; a poll begins, is over or is woken. -/
theorem congr (h : TaskInv k r₀ log got task) (hr : task'.receiver = task.receiver)
    (hpoll : task'.poll ≠ .idle → task.receiver.finished = false) : TaskInv k r₀ log got task' := by
  refine ⟨?_, ?_, ?_, h.inOrder⟩
  · rw [hr]
    exact hpoll
  · rw [hr]
    exact h.receiver
  · rw [hr]
    exact h.next

/-- The receiver has ended. -/
theorem finish (h : TaskInv k r₀ log got task) {r : Receiver} (hr : r.finished = true) :
    TaskInv k r₀ log got ⟨r, .idle⟩ := by
  have hno : ¬ r.finished = false := by
    rw [hr]
    exact Bool.noConfusion
  exact ⟨fun hpoll => absurd rfl hpoll, fun hf => absurd hf hno, fun hf => absurd hf hno, h.inOrder⟩

/-- A cell with the next message. -/
theorem read (h : TaskInv k r₀ log got task) (hstart : 2 ^ k + 1 ≤ r₀.next) {pushed : Pushed E C}
    (hfinished : task.receiver.finished = false)
    (hget : log[task.receiver.next - (2 ^ k + 1)]? = some pushed) {poll : Poll} :
    TaskInv k r₀ log (got ++ r₀.passed [pushed])
      ⟨{ task.receiver with next := task.receiver.next + 1 }, poll⟩ := by
  obtain ⟨hle, hle', hgot⟩ := h.next hfinished
  have hlt := (List.getElem?_eq_some_iff.mp hget).1
  have hgot' : got ++ r₀.passed [pushed] = r₀.passed ((log.drop (r₀.next - (2 ^ k + 1))).take
      (task.receiver.next + 1 - r₀.next)) := by
    rw [LiveInv.take_succ hstart hle hget, Receiver.passed_append, ← hgot]
  refine ⟨fun _ => hfinished, fun _ => ?_, fun _ => ⟨?_, ?_, hgot'⟩, _, hgot'⟩
  · show { task.receiver with next := task.receiver.next + 1 } = { r₀ with next := task.receiver.next + 1 }
    rw [h.receiver hfinished]
  · exact Nat.le_succ_of_le hle
  · show task.receiver.next + 1 ≤ 2 ^ k + 1 + log.length
    omega

/-- A receiver after the last message has yielded all of them. -/
theorem all (h : TaskInv k r₀ log got task) (hstart : 2 ^ k + 1 ≤ r₀.next)
    (hfinished : task.receiver.finished = false) (hlt : 2 ^ k + log.length < task.receiver.next) :
    got = r₀.passed (log.drop (r₀.next - (2 ^ k + 1))) := by
  obtain ⟨hle, -, hgot⟩ := h.next hfinished
  rw [List.take_of_length_le] at hgot
  · exact hgot
  · rw [List.length_drop]
    omega

end TaskInv

/-- An action that is not one of a receiver leaves the receivers where they are. -/
theorem Chan.step_other {s s' : Chan E C} {a : ChanAction E C} {out : List (ChanEvent E C)}
    (ha : a.isTask = false) (h : Chan.step s a = .ok (s', out)) :
    (∀ i, yieldedBy i out = [] ∧ out ≠ [.pending i] ∧ out ≠ [.lagged i]) ∧
      ∀ (i : ℕ) (task : Task), s.tasks[i]? = some task → ∃ task', s'.tasks[i]? = some task' ∧
        task'.receiver = task.receiver ∧ (task'.poll = task.poll ∨ task'.poll = .idle) := by
  have hsame : ∀ (i : ℕ) (task : Task), s.tasks[i]? = some task → ∃ task', s.tasks[i]? = some task' ∧
      task'.receiver = task.receiver ∧ (task'.poll = task.poll ∨ task'.poll = .idle) :=
    fun i task hget => ⟨task, hget, rfl, .inl rfl⟩
  have hnil : ∀ i, yieldedBy i ([] : List (ChanEvent E C)) = [] ∧
      ([] : List (ChanEvent E C)) ≠ [.pending i] ∧ ([] : List (ChanEvent E C)) ≠ [.lagged i] := by
    intro i
    exact ⟨rfl, by simp, by simp⟩
  cases a with
  | push input =>
    simp only [step] at h
    split at h <;> cases h
    exact ⟨hnil, hsame⟩
  | store =>
    simp only [step] at h
    split at h <;> cases h
    exact ⟨fun i => ⟨rfl, by simp, by simp⟩, hsame⟩
  | dropHead =>
    simp only [step] at h
    split at h
    · split at h
      · split at h <;> cases h
        exact ⟨hnil, hsame⟩
      · cases h
    · cases h
  | removeSlots =>
    simp only [step] at h
    split at h
    · split at h <;> cases h
      exact ⟨hnil, hsame⟩
    · cases h
  | unlock =>
    simp only [step] at h
    split at h <;> cases h
    exact ⟨hnil, hsame⟩
  | wake j =>
    simp only [step] at h
    split at h <;> cases h
    refine ⟨hnil, fun i task hget => ?_⟩
    rename_i l _
    by_cases hl : l = i
    · refine ⟨task.wake, ?_, ?_, ?_⟩
      · simp [hget, hl]
      · obtain ⟨r, poll⟩ := task
        cases poll <;> rfl
      · obtain ⟨r, poll⟩ := task
        cases poll <;> simp [Task.wake]
    · exact ⟨task, by simp [hget, hl], rfl, .inl rfl⟩
  | close =>
    simp only [step] at h
    cases h
    exact ⟨hnil, hsame⟩
  | closeCell j =>
    simp only [step] at h
    split at h
    · split at h <;> cases h
      exact ⟨hnil, hsame⟩
    · cases h
  | closeWake j =>
    simp only [step] at h
    split at h
    · split at h <;> cases h
      exact ⟨hnil, hsame⟩
    · cases h
  | subscribe replayFromSlot filter =>
    simp only [step] at h
    split at h <;> cases h
    · refine ⟨hnil, fun i task hget => ⟨task, ?_, rfl, .inl rfl⟩⟩
      rw [List.getElem?_append_left (List.getElem?_eq_some_iff.mp hget).1]
      exact hget
    · exact ⟨fun i => ⟨rfl, by simp, by simp⟩, hsame⟩
  | _ => cases ha

/-- The invariant of the receiver `i` that started as `r₀` after `log₀`. -/
structure ReceiverInv (k : ℕ) (log₀ : List (Pushed E C)) (i : ℕ) (r₀ : Receiver) (s : Chan E C)
    (events : List (ChanEvent E C)) : Prop where
  chan : ChanInv k (log₀ ++ pushedItems events) s
  task : ∃ task, s.tasks[i]? = some task ∧
    TaskInv k r₀ (log₀ ++ pushedItems events) (yieldedBy i events) task

namespace ReceiverInv

variable {k : ℕ} {log₀ : List (Pushed E C)} {i : ℕ} {r₀ : Receiver} {s s' : Chan E C}
  {a : ChanAction E C} {events out : List (ChanEvent E C)}

theorem step (h : ReceiverInv k log₀ i r₀ s events) (hstart : 2 ^ k + 1 ≤ r₀.next)
    (hstep : Chan.step s a = .ok (s', out)) : ReceiverInv k log₀ i r₀ s' (events ++ out) := by
  obtain ⟨task, hget, htask⟩ := h.task
  have hchan := h.chan.step hstep
  rw [List.append_assoc, ← pushedItems_append] at hchan
  refine ⟨hchan, ?_⟩
  cases ha : a.isTask with
  | false =>
    obtain ⟨hout, htasks⟩ := Chan.step_other ha hstep
    obtain ⟨task', hget', hr, hpoll⟩ := htasks i task hget
    refine ⟨task', hget', ?_⟩
    rw [yieldedBy_append, (hout i).1, List.append_nil, pushedItems_append, ← List.append_assoc]
    refine (htask.push hstart).congr hr fun hne => htask.polled ?_
    rcases hpoll with hpoll | hpoll
    · rwa [← hpoll]
    · exact absurd hpoll hne
  | true =>
    rcases Chan.step_task ha hstep with ⟨rfl, j, rfl⟩ | ⟨j, t, t', hj, ht, hs'⟩
    · refine ⟨task, hget, ?_⟩
      rw [yieldedBy_append, pushedItems_append]
      simpa [yieldedBy, pushedItems, ChanEvent.item?, ChanEvent.pushed?] using htask
    · have htasks : s'.tasks = s.tasks.set j t' := by
        rcases hs' with ⟨rfl, -⟩ | ⟨-, -, rfl⟩ <;> rfl
      have hpushed : pushedItems out = [] := by cases ht <;> rfl
      rw [pushedItems_append, hpushed, List.append_nil, htasks, yieldedBy_append]
      by_cases hij : j = i
      · subst hij
        obtain rfl := Option.some.inj (hget.symm.trans hj)
        refine ⟨t', List.getElem?_set_self (List.getElem?_eq_some_iff.mp hget).1, ?_⟩
        have hfinished : task.poll = .reading ∨ task.poll = .locking → task.receiver.finished = false := by
          rintro (hpoll | hpoll)
          · exact htask.polled (by simp [hpoll])
          · exact htask.polled (by simp [hpoll])
        have hread : ∀ (d : PluginNotification × Bytes) poll, task.receiver.finished = false →
            (s.shared.item task.receiver.next).pos = task.receiver.next →
            (s.shared.item task.receiver.next).data = some d →
            TaskInv k r₀ (log₀ ++ pushedItems events)
              (yieldedBy j events ++ if task.receiver.enabled d.1 then [d.2] else [])
              ⟨{ task.receiver with next := task.receiver.next + 1 }, poll⟩ := by
          intro d poll hf hpos hdata
          obtain ⟨pushed, hlog, rfl⟩ := h.chan.ring.item_of_read hpos hdata
          have henabled : r₀.enabled = task.receiver.enabled := by
            rw [htask.receiver hf]
            rfl
          have hpassed : (if task.receiver.enabled (.ofMessage pushed.message) then [pushed.data] else []) =
              r₀.passed [pushed] := by
            rw [Receiver.passed, henabled, List.filter_singleton]
            split <;> simp [*]
          rw [hpassed]
          exact htask.read hstart hf hlog
        cases ht with
        | poll hpoll hf =>
          rw [show yieldedBy j ([] : List (ChanEvent E C)) = [] from rfl, List.append_nil]
          exact htask.congr rfl fun _ => hf
        | locking hpoll =>
          rw [show yieldedBy j ([] : List (ChanEvent E C)) = [] from rfl, List.append_nil]
          exact htask.congr rfl fun _ => hfinished (.inl hpoll)
        | closed =>
          rw [show yieldedBy j [(.closed j : ChanEvent E C)] = [] from rfl, List.append_nil]
          exact htask.finish rfl
        | lagged next hpoll hgone =>
          rw [show yieldedBy j [(.lagged j : ChanEvent E C)] = [] from rfl, List.append_nil]
          exact htask.finish rfl
        | skip d hpoll hpos hdata henabled =>
          have hinv := hread d .reading (hfinished hpoll) hpos hdata
          rw [henabled, if_neg Bool.false_ne_true] at hinv
          exact hinv
        | item d hpoll hpos hdata henabled =>
          have hinv := hread d .idle (hfinished hpoll) hpos hdata
          rw [if_pos henabled] at hinv
          rwa [show yieldedBy j [(.item j d.2 : ChanEvent E C)] = [d.2] by simp [yieldedBy, ChanEvent.item?]]
        | pending hpoll hclosed hlt =>
          rw [show yieldedBy j [(.pending j : ChanEvent E C)] = [] from rfl, List.append_nil]
          exact htask.congr rfl fun _ => hfinished (.inr hpoll)
      · refine ⟨task, by rw [List.getElem?_set_ne hij]; exact hget, ?_⟩
        have hout : yieldedBy i out = [] := by
          cases ht <;> simp [yieldedBy, ChanEvent.item?, hij]
        rw [hout, List.append_nil]
        exact htask

/-- A receiver whose cell has an earlier position has yielded all messages. -/
theorem all (h : ReceiverInv k log₀ i r₀ s events) (hstart : 2 ^ k + 1 ≤ r₀.next) {task : Task}
    (hget : s.tasks[i]? = some task) (hpoll : task.poll ≠ .idle)
    (hlt : (s.shared.item task.receiver.next).pos < task.receiver.next) :
    yieldedBy i events = r₀.passed ((log₀ ++ pushedItems events).drop (r₀.next - (2 ^ k + 1))) := by
  obtain ⟨task', hget', htask⟩ := h.task
  obtain rfl := Option.some.inj (hget.symm.trans hget')
  have hf := htask.polled hpoll
  have hnext := (htask.next hf).1
  have htail := h.chan.ring.not_written (hstart.trans hnext) hlt
  rw [h.chan.ring.tail_eq] at htail
  exact htask.all hstart hf htail

end ReceiverInv

/-- **A receiver that starts at a position of the ring, or at the next one.** -/
theorem ChanInv.delivers {k : ℕ} {log : List (Pushed E C)} {s : Chan E C} {i : ℕ} {r : Receiver}
    (h : ChanInv k log s) (hget : s.tasks[i]? = some ⟨r, .idle⟩) (hfinished : r.finished = false)
    (hstart : 2 ^ k + 1 ≤ r.next) (hle : r.next ≤ s.shared.state.tail + 1) :
    Delivers (2 ^ k + 1) log s i r := by
  have hinit : ReceiverInv k log i r s [] := by
    refine ⟨?_, ⟨r, .idle⟩, hget, ?_⟩
    · rw [pushedItems_nil, List.append_nil]
      exact h
    · refine TaskInv.start ?_ hfinished
      rw [pushedItems_nil, List.append_nil]
      have := h.ring.tail_eq
      omega
  have hinv : ∀ {acts s' events}, run Chan.step s acts = .ok (s', events) →
      ReceiverInv k log i r s' events := by
    intro acts s' events hrun
    exact run_induction (P := fun _ s events => ReceiverInv k log i r s events) hinit
      (fun _ _ _ _ _ _ _ hinv hstep => hinv.step hstart hstep) hrun
  constructor
  · intro acts s' events hrun
    obtain ⟨task, -, htask⟩ := (hinv hrun).task
    exact htask.inOrder
  · intro acts s' events a s'' hrun hstep
    cases ha : a.isTask with
    | false => exact absurd rfl ((Chan.step_other ha hstep).1 i).2.1
    | true =>
      rcases Chan.step_task ha hstep with ⟨-, j, hout⟩ | ⟨j, task, task', hj, ht, -⟩
      · cases hout
      · cases ht with
        | pending hpoll hclosed hlt => exact (hinv hrun).all hstart hj (by simp [hpoll]) hlt
  · intro acts s' events a s'' hrun hstep
    cases ha : a.isTask with
    | false => exact absurd rfl ((Chan.step_other ha hstep).1 i).2.2
    | true =>
      rcases Chan.step_task ha hstep with ⟨-, j, hout⟩ | ⟨j, task, task', hj, ht, -⟩
      · cases hout
      · cases ht with
        | lagged next hpoll hgone =>
          obtain ⟨t, ht, htask⟩ := (hinv hrun).task
          obtain rfl := Option.some.inj (hj.symm.trans ht)
          have hf : task.receiver.finished = false := by
            refine htask.polled ?_
            rcases hpoll with hpoll | hpoll <;> simp [hpoll]
          refine ⟨task, hj, (htask.next hf).1, ?_⟩
          rcases hgone with ⟨hpos, hdata⟩ | hlt
          · exact (hinv hrun).chan.ring.dropped hpos hdata
          · exact (hinv hrun).chan.ring.overwritten hlt
  · intro acts s' events task hrun htask hpoll
    rcases (hinv hrun).chan.pending i task htask hpoll with hwoken | hwaits
    · exact .inl hwoken
    · refine .inr ⟨hwaits.registered, fun hpushing => ?_, hwaits.closed⟩
      exact (hinv hrun).all hstart htask (by simp [hpoll]) (hwaits.cell hpushing)

/-! ### Live subscriptions -/

/-- **Live subscription**, in every state that the channel reaches after the first message: the receiver of
`subscribe(None, filter)` delivers what is pushed from the last message on. -/
theorem Chan.subscribe_delivers {config : ConfigChannel} {acts : List (ChanAction E C)}
    {s s' : Chan E C} {events out : List (ChanEvent E C)} {filter : Option RichatFilter}
    (h : run Chan.step (.new config) acts = .ok (s, events)) (hpushed : pushedItems events ≠ [])
    (hsub : Chan.step s (.subscribe none filter) = .ok (s', out)) :
    ∃ r, s.shared.subscribe none filter = .ok r ∧
      r.next = s.shared.state.tail ∧ s'.tasks = s.tasks ++ [⟨r, .idle⟩] ∧
      Delivers (nextPowerOfTwo config.maxMessages + 1) (pushedItems events) s' s.tasks.length r := by
  obtain ⟨k, hk⟩ := exists_nextPowerOfTwo config.maxMessages
  have hinv := ChanInv.run_inv hk h
  have hinv' := hinv.step hsub
  simp only [step] at hsub
  split at hsub
  · rename_i r hpushing hr
    cases hsub
    cases hr
    rw [pushedItems_nil, List.append_nil] at hinv'
    refine ⟨_, rfl, rfl, rfl, ?_⟩
    rw [hk]
    refine hinv'.delivers (by simp) rfl ?_ (Nat.le_succ _)
    have hlen := List.length_pos_iff.mpr hpushed
    have htail := hinv.ring.tail_eq
    show 2 ^ k + 1 ≤ s.shared.state.tail
    omega
  · rename_i e hpushing he
    cases he
  · cases hsub

/-- A status, with an encoder that writes one byte. -/
def sampleSlot (slot : UInt64) (parent : Option UInt64) (status : SlotStatus) : PushInput Unit Unit :=
  ⟨.slot slot parent status none, fun _ => [1]⟩

/-- One status is pushed before the receiver is made. -/
theorem Chan.subscribe_delivers_slot :
    ∃ (s s' : Chan Unit Unit) (events : List (ChanEvent Unit Unit)) (r : Receiver),
      run Chan.step (.new ⟨2, 100⟩) [.push (sampleSlot 1 none .processed), .store, .removeSlots, .unlock] =
        .ok (s, events) ∧ Chan.step s (.subscribe none none) = .ok (s', []) ∧
      Delivers 3 (pushedItems events) s' 0 r := by
  obtain ⟨s, events, hrun, hcheck⟩ := exists_of_returns
    (x := run Chan.step (.new ⟨2, 100⟩)
      [.push (sampleSlot 1 none .processed), .store, .removeSlots, .unlock])
    (p := fun (s : Chan Unit Unit) events => s.tasks.isEmpty && !(pushedItems events).isEmpty &&
      returns (fun _ out => out.isEmpty) (Chan.step s (.subscribe none none))) (by decide +kernel)
  obtain ⟨hcheck, hsub⟩ := Bool.and_eq_true_iff.mp hcheck
  obtain ⟨htasks, hpushed⟩ := Bool.and_eq_true_iff.mp hcheck
  obtain ⟨s', out, hsub, hout⟩ := exists_of_returns hsub
  rw [List.isEmpty_iff.mp hout] at hsub
  obtain ⟨r, -, -, -, hdelivers⟩ := Chan.subscribe_delivers hrun (by simpa using hpushed) hsub
  rw [List.isEmpty_iff.mp htasks] at hdelivers
  exact ⟨s, s', events, r, hrun, hsub, hdelivers⟩

/-- A receiver that is made before the first push is pending while a status is there for it, with no push in
progress, and lags after the next one, although nothing was evicted. -/
theorem Chan.lost_before_push :
    ∃ (s s' : Chan Unit Unit) (events events' : List (ChanEvent Unit Unit)),
      run Chan.step (.new ⟨2, 100⟩) [.subscribe none none, .push (sampleSlot 1 none .processed), .store,
        .removeSlots, .unlock, .poll 0, .read 0, .register 0] = .ok (s, events) ∧
      s.tasks.map (·.poll) = [.pending] ∧ s.pushing.isNone ∧ s.woken = [] ∧
      (pushedItems events).length = 1 ∧ yieldedBy 0 events = [] ∧
      run Chan.step s [.push (sampleSlot 2 none .processed), .store, .removeSlots, .unlock, .wake 0,
        .poll 0, .read 0, .register 0] = .ok (s', events') ∧
      events'.any (·.isLagged 0) ∧ s'.shared.state.head = 3 := by
  obtain ⟨s, events, hrun, hcheck⟩ := exists_of_returns
    (x := run Chan.step (.new ⟨2, 100⟩) [.subscribe none none, .push (sampleSlot 1 none .processed), .store,
        .removeSlots, .unlock, .poll 0, .read 0, .register 0])
    (p := fun (s : Chan Unit Unit) events =>
      decide (s.tasks.map (·.poll) = [.pending] ∧ s.pushing.isNone ∧ s.woken = [] ∧
        (pushedItems events).length = 1 ∧ yieldedBy 0 events = []) &&
      returns (fun (s' : Chan Unit Unit) events' =>
          events'.any (·.isLagged 0) && s'.shared.state.head = 3)
        (run Chan.step s [.push (sampleSlot 2 none .processed), .store, .removeSlots, .unlock, .wake 0,
          .poll 0, .read 0, .register 0])) (by decide +kernel)
  obtain ⟨hfirst, hsecond⟩ := Bool.and_eq_true_iff.mp hcheck
  obtain ⟨s', events', hrun', hcheck'⟩ := exists_of_returns hsecond
  obtain ⟨hlagged, hhead⟩ := Bool.and_eq_true_iff.mp hcheck'
  obtain ⟨hpending, hpushing, hwoken, hone, hnone⟩ := of_decide_eq_true hfirst
  exact ⟨s, s', events, events', hrun, hpending, hpushing, hwoken, hone, hnone, hrun', hlagged,
    of_decide_eq_true hhead⟩

end Richat.Plugin
