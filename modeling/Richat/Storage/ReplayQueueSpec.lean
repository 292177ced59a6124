import Richat.Storage.ReplayQueue
import Mathlib.Data.List.Perm.Basic

/-!
# Accounting and order of the replay queue

`pop_next` cuts the queue in three: the deferred requests at its front, the first one that is ready, and the
rest, which comes to the front. That is all that the rest of this module knows about its loop: no request is
lost, the ready ones stay in their order, and all that was before a ready request and stays in the queue is
behind it.
-/

namespace Richat

open Lib

/-! ### One call -/

namespace ReplayQueue

variable {queue : ReplayQueue} {prevRequest : Option ReplayRequest}

/-- What the loop of `pop_next` does with a queue: all requests are deferred, or it takes the first one that
is not. -/
theorem popLoop_append (now : ℕ) : ∀ pending rotated : List ReplayRequest,
    ((∀ r ∈ pending, r.ready now = false) ∧
      popLoop now pending.length (pending ++ rotated) = (none, rotated ++ pending)) ∨
    ∃ deferred r rest, pending = deferred ++ r :: rest ∧ (∀ d ∈ deferred, d.ready now = false) ∧
      r.ready now ∧ popLoop now pending.length (pending ++ rotated) =
        (some { r with retryAt := none }, rest ++ rotated ++ deferred)
  | [], rotated => .inl ⟨by simp, by simp [popLoop]⟩
  | r :: pending, rotated => by
    by_cases hr : r.ready now
    · exact .inr ⟨[], r, pending, rfl, by simp, hr, by simp [popLoop, hr]⟩
    · have hloop : popLoop now (r :: pending).length (r :: pending ++ rotated) =
          popLoop now pending.length (pending ++ (rotated ++ [r])) := by
        simp [popLoop, hr]
      rw [hloop]
      rcases popLoop_append now pending (rotated ++ [r]) with
        ⟨hall, heq⟩ | ⟨deferred, x, rest, rfl, hall, hx, heq⟩
      · refine .inl ⟨?_, by simpa using heq⟩
        exact List.forall_mem_cons.mpr ⟨Bool.eq_false_of_not_eq_true hr, hall⟩
      · refine .inr ⟨r :: deferred, x, rest, rfl, ?_, hx, by simpa using heq⟩
        exact List.forall_mem_cons.mpr ⟨Bool.eq_false_of_not_eq_true hr, hall⟩

/-- The requests that `pop_next` looks at. -/
def offered (queue : ReplayQueue) (prevRequest : Option ReplayRequest) : List ReplayRequest :=
  queue.requests ++ prevRequest.toList

/-- A worker that brings back a request is counted. -/
theorem popNext_cases (now : ℕ) (hlen : prevRequest ≠ none → 0 < queue.len) :
    ((∀ r ∈ queue.offered prevRequest, r.ready now = false) ∧
      queue.popNext now prevRequest = (none, { queue with requests := queue.offered prevRequest })) ∨
    ∃ deferred r rest, queue.offered prevRequest = deferred ++ r :: rest ∧
      (∀ d ∈ deferred, d.ready now = false) ∧ r.ready now ∧
      queue.popNext now prevRequest =
        (some { r with retryAt := none }, { queue with requests := rest ++ deferred }) := by
  have hoffered : (if 0 < queue.len then queue.requests ++ prevRequest.toList else queue.requests) =
      queue.offered prevRequest := by
    split
    · rfl
    · rename_i hzero
      obtain rfl : prevRequest = none := by
        by_contra hprev
        exact hzero (hlen hprev)
      simp [offered]
  simp only [popNext, hoffered]
  have hloop := popLoop_append now (queue.offered prevRequest) []
  simp only [List.append_nil, List.nil_append] at hloop
  rcases hloop with ⟨hall, heq⟩ | ⟨deferred, r, rest, hsplit, hall, hr, heq⟩
  · exact .inl ⟨hall, by rw [heq]⟩
  · exact .inr ⟨deferred, r, rest, hsplit, hall, hr, by rw [heq]⟩

end ReplayQueue

/-- A turn brings back the request that it serves. -/
theorem ReplayRequest.ticket_turn {now : ℕ} {input : TurnInput} {req next : ReplayRequest}
    (h : req.turn now input = some next) : next.ticket = req.ticket := by
  unfold ReplayRequest.turn at h
  split at h
  · cases h
  split at h
  · cases h
  · cases h
  split at h
  · cases h
  split at h
  · cases h
  dsimp only at h
  split at h <;> cases h
  rfl

/-- A request that is ready stays so. -/
theorem ReplayRequest.ready_mono {r : ReplayRequest} {now now' : ℕ} (h : r.ready now)
    (hle : now ≤ now') : r.ready now' := by
  unfold ReplayRequest.ready at h ⊢
  cases hr : r.retryAt with
  | none => rfl
  | some retryAt =>
    rw [hr] at h
    simp only [Option.all_some, decide_eq_true_eq] at h ⊢
    omega

/-! ### Accounting -/

namespace ReplayEvent

def accepted? : ReplayEvent → Option ℕ
  | accepted ticket => some ticket
  | _ => none

def popped? : ReplayEvent → Option ℕ
  | popped _ ticket => some ticket
  | _ => none

def dropped? : ReplayEvent → Option ℕ
  | dropped ticket => some ticket
  | _ => none

/-- A call of `pop_next`. -/
def isPoll : ReplayEvent → Bool
  | popped .. | idle _ => true
  | _ => false

end ReplayEvent

/-- The requests that were accepted, popped and dropped. -/
def acceptedTickets (events : List ReplayEvent) : List ℕ := events.filterMap (·.accepted?)
def poppedTickets (events : List ReplayEvent) : List ℕ := events.filterMap (·.popped?)
def droppedTickets (events : List ReplayEvent) : List ℕ := events.filterMap (·.dropped?)

/-- How often `pop_next` was called. -/
def polls (events : List ReplayEvent) : ℕ := events.countP (·.isPoll)

@[simp] theorem acceptedTickets_append (l l' : List ReplayEvent) :
    acceptedTickets (l ++ l') = acceptedTickets l ++ acceptedTickets l' := List.filterMap_append

@[simp] theorem poppedTickets_append (l l' : List ReplayEvent) :
    poppedTickets (l ++ l') = poppedTickets l ++ poppedTickets l' := List.filterMap_append

@[simp] theorem droppedTickets_append (l l' : List ReplayEvent) :
    droppedTickets (l ++ l') = droppedTickets l ++ droppedTickets l' := List.filterMap_append

@[simp] theorem polls_append (l l' : List ReplayEvent) : polls (l ++ l') = polls l + polls l' :=
  List.countP_append

/-- Which of the accepted requests these are. -/
def tickets (requests : List ReplayRequest) : List ℕ := requests.map (·.ticket)

@[simp] theorem tickets_nil : tickets [] = [] := rfl

@[simp] theorem tickets_append (l l' : List ReplayRequest) : tickets (l ++ l') = tickets l ++ tickets l' :=
  List.map_append

@[simp] theorem tickets_cons (r : ReplayRequest) (l : List ReplayRequest) :
    tickets (r :: l) = r.ticket :: tickets l := rfl

theorem length_tickets (l : List ReplayRequest) : (tickets l).length = l.length := List.length_map _

namespace ReplayWorkers

variable {capacity n : ℕ} {s s' : ReplayWorkers} {events out : List ReplayEvent}

/-- The accounting: every request that was accepted is in the queue, with one worker, or was dropped once. -/
structure Accounted (capacity : ℕ) (s : ReplayWorkers) (events : List ReplayEvent) : Prop where
  capacity_eq : s.queue.capacity = capacity
  len : s.queue.len = s.queue.requests.length + s.held.length
  le : s.queue.len ≤ capacity
  accepted : acceptedTickets events = List.range s.accepted
  places : (tickets s.queue.requests ++ tickets s.held ++ droppedTickets events).Perm
    (List.range s.accepted)

/-- What a step can do to the queue and to the workers. -/
inductive Move (s : ReplayWorkers) : ReplayWorkers → List ReplayEvent → Prop where
  | tick (elapsed : ℕ) : Move s { s with now := s.now + elapsed } []
  | accept (request : ReplayRequest) (hlen : s.queue.len < s.queue.capacity)
      (hticket : request.ticket = s.accepted) :
      Move s
        { s with
          queue := { s.queue with len := s.queue.len + 1, requests := s.queue.requests ++ [request] }
          accepted := s.accepted + 1 } [.accepted s.accepted]
  | refuse : Move s s [.refused]
  | idle (worker : ℕ) (prevRequest : Option ReplayRequest)
      (hworker : s.workers[worker]? = some (.looking prevRequest))
      (hall : ∀ r ∈ s.queue.offered prevRequest, r.ready s.now = false) :
      Move s
        { s with
          queue := { s.queue with requests := s.queue.offered prevRequest }
          workers := s.workers.set worker (.looking none) } [.idle worker]
  | pop (worker : ℕ) (prevRequest : Option ReplayRequest)
      (hworker : s.workers[worker]? = some (.looking prevRequest)) (deferred : List ReplayRequest)
      (r : ReplayRequest) (rest : List ReplayRequest)
      (hsplit : s.queue.offered prevRequest = deferred ++ r :: rest)
      (hdeferred : ∀ d ∈ deferred, d.ready s.now = false) (hready : r.ready s.now) :
      Move s
        { s with
          queue := { s.queue with requests := rest ++ deferred }
          workers := s.workers.set worker (.serving { r with retryAt := none }) } [.popped worker r.ticket]
  | turn (worker : ℕ) (req : ReplayRequest) (next : ReplayWorker)
      (hworker : s.workers[worker]? = some (.serving req)) (hnext : tickets next.held = [req.ticket]) :
      Move s { s with workers := s.workers.set worker next } []
  | drop (worker : ℕ) (req : ReplayRequest) (hworker : s.workers[worker]? = some (.dropping req)) :
      Move s
        { s with queue := s.queue.dropReq, workers := s.workers.set worker (.looking none) }
        [.dropped req.ticket]

/-- The requests of all workers when one of them goes on. -/
theorem held_set {workers : List ReplayWorker} {worker : ℕ} {a : ReplayWorker} (b : ReplayWorker)
    (ha : workers[worker]? = some a) :
    (a.held ++ (workers.set worker b).flatMap ReplayWorker.held).Perm
      (b.held ++ workers.flatMap ReplayWorker.held) := by
  obtain ⟨hlt, rfl⟩ := List.getElem?_eq_some_iff.mp ha
  have hworkers : workers = workers.take worker ++ workers[worker] :: workers.drop (worker + 1) := by
    rw [List.getElem_cons_drop, List.take_append_drop]
  rw [List.set_eq_take_append_cons_drop, if_pos hlt]
  conv_rhs => rw [hworkers]
  simp only [List.flatMap_append, List.flatMap_cons]
  refine (List.perm_append_comm_assoc ..).trans ?_
  refine ((List.perm_append_comm_assoc ..).append_left _).trans ?_
  exact List.perm_append_comm_assoc ..

namespace Accounted

theorem new (capacity n : ℕ) : Accounted capacity (.new capacity n) [] where
  capacity_eq := rfl
  len := by
    have : (ReplayWorkers.new capacity n).held = [] := by simp [held, ReplayWorkers.new, ReplayWorker.held]
    rw [this]
    rfl
  le := Nat.zero_le _
  accepted := rfl
  places := by
    have : (ReplayWorkers.new capacity n).held = [] := by simp [held, ReplayWorkers.new, ReplayWorker.held]
    rw [this]
    exact List.Perm.refl []

/-- A worker that holds a request is counted. -/
theorem len_pos {worker : ℕ} {a : ReplayWorker} (h : Accounted capacity s events)
    (ha : s.workers[worker]? = some a) (hheld : a.held ≠ []) : 0 < s.queue.len := by
  obtain ⟨r, hr⟩ := List.exists_mem_of_ne_nil _ hheld
  have hmem : r ∈ s.held := List.mem_flatMap.mpr ⟨a, List.mem_of_getElem? ha, hr⟩
  have hpos := List.length_pos_of_mem hmem
  have hlen := h.len
  omega

theorem move {action : ReplayAction} (h : Accounted capacity s events)
    (hstep : s.step action = .ok (s', out)) : s.Move s' out := by
  cases action with
  | tick elapsed =>
    cases hstep
    exact .tick elapsed
  | pushNew retryAt generation =>
    simp only [ReplayWorkers.step, ReplayQueue.pushNew] at hstep
    split at hstep
    · rename_i queue hpush
      split at hpush
      · rename_i hlen
        cases hpush
        cases hstep
        exact .accept _ hlen rfl
      · cases hpush
    · cases hstep
      exact .refuse
  | popNext worker =>
    simp only [ReplayWorkers.step] at hstep
    split at hstep
    · rename_i prevRequest hworker
      have hlen : prevRequest ≠ none → 0 < s.queue.len := fun hprev =>
        h.len_pos hworker (by simpa [ReplayWorker.held] using hprev)
      rcases ReplayQueue.popNext_cases s.now hlen with
        ⟨hall, heq⟩ | ⟨deferred, r, rest, hsplit, hdeferred, hready, heq⟩
      · rw [heq] at hstep
        cases hstep
        exact .idle worker prevRequest hworker hall
      · rw [heq] at hstep
        cases hstep
        exact .pop worker prevRequest hworker deferred r rest hsplit hdeferred hready
    · cases hstep
  | turn worker input =>
    simp only [ReplayWorkers.step] at hstep
    split at hstep
    · rename_i req hworker
      split at hstep
      · rename_i next hturn
        cases hstep
        exact .turn worker req _ hworker (congrArg (fun t => [t]) (ReplayRequest.ticket_turn hturn))
      · cases hstep
        exact .turn worker req _ hworker rfl
    · cases hstep
  | dropReq worker =>
    simp only [ReplayWorkers.step] at hstep
    split at hstep
    · rename_i req hworker
      cases hstep
      exact .drop worker req hworker
    · cases hstep

/-- What a worker holds and the queue, after a step that puts `b` in the place of `a`. -/
theorem places_set {worker : ℕ} {a b : ReplayWorker} {requests : List ReplayRequest} {dropped : List ℕ}
    (h : Accounted capacity s events) (ha : s.workers[worker]? = some a)
    (hmoved : (tickets requests ++ tickets b.held ++ dropped).Perm
      (tickets s.queue.requests ++ tickets a.held)) :
    (tickets requests ++ tickets ((s.workers.set worker b).flatMap ReplayWorker.held) ++
      (droppedTickets events ++ dropped)).Perm (List.range s.accepted) := by
  refine List.Perm.trans ?_ h.places
  have hset := (held_set b ha).map (·.ticket)
  rw [List.map_append, List.map_append] at hset
  rw [List.perm_iff_count] at hset hmoved ⊢
  intro ticket
  have h₁ := hset ticket
  have h₂ := hmoved ticket
  simp only [List.count_append, tickets, held] at h₁ h₂ ⊢
  omega

theorem length_set {worker : ℕ} {a : ReplayWorker} (b : ReplayWorker) (ha : s.workers[worker]? = some a) :
    a.held.length + ((s.workers.set worker b).flatMap ReplayWorker.held).length =
      b.held.length + s.held.length := by
  have hlen := (held_set b ha).length_eq
  rwa [List.length_append, List.length_append] at hlen

theorem ofMove (h : Accounted capacity s events) (hmove : s.Move s' out) :
    Accounted capacity s' (events ++ out) := by
  have hlen := h.len
  cases hmove with
  | tick elapsed => simpa using ⟨h.capacity_eq, h.len, h.le, h.accepted, h.places⟩
  | accept request hroom hticket =>
    refine ⟨h.capacity_eq, ?_, ?_, ?_, ?_⟩
    · rw [List.length_append, List.length_singleton]
      change s.queue.len + 1 = _ + s.held.length
      omega
    · exact h.capacity_eq ▸ hroom
    · rw [acceptedTickets_append, h.accepted, List.range_succ]
      rfl
    · rw [List.range_succ, droppedTickets_append, tickets_append, ← hticket, hticket]
      refine List.Perm.trans ?_ (h.places.append_right [s.accepted])
      rw [List.perm_iff_count]
      intro ticket
      simp only [List.count_append, tickets_cons, tickets_nil, hticket, held, droppedTickets,
        List.filterMap_cons, ReplayEvent.dropped?, List.filterMap_nil, List.count_nil]
      omega
  | refuse =>
    refine ⟨h.capacity_eq, h.len, h.le, ?_, ?_⟩
    · rw [acceptedTickets_append, h.accepted]
      exact List.append_nil _
    · rw [droppedTickets_append]
      simpa [droppedTickets, ReplayEvent.dropped?] using h.places
  | idle worker prevRequest hworker hall =>
    have hset := length_set (.looking none) hworker
    refine ⟨h.capacity_eq, ?_, h.le, ?_, ?_⟩
    · simp only [ReplayQueue.offered, List.length_append, ReplayWorker.held, Option.toList_none,
        List.length_nil] at hset ⊢
      change _ = _ + ((s.workers.set worker _).flatMap ReplayWorker.held).length
      omega
    · rw [acceptedTickets_append, h.accepted]
      exact List.append_nil _
    · rw [droppedTickets_append]
      refine h.places_set hworker ?_
      simp [ReplayQueue.offered, ReplayWorker.held, droppedTickets, ReplayEvent.dropped?]
  | pop worker prevRequest hworker deferred r rest hsplit hdeferred hready =>
    have hset := length_set (.serving { r with retryAt := none }) hworker
    have hoffered := congrArg List.length hsplit
    refine ⟨h.capacity_eq, ?_, h.le, ?_, ?_⟩
    · simp only [ReplayQueue.offered, List.length_append, ReplayWorker.held, List.length_cons,
        List.length_nil] at hset hoffered ⊢
      change _ = _ + ((s.workers.set worker _).flatMap ReplayWorker.held).length
      omega
    · rw [acceptedTickets_append, h.accepted]
      exact List.append_nil _
    · rw [droppedTickets_append]
      refine h.places_set hworker ?_
      have hmoved := congrArg tickets hsplit
      simp only [ReplayQueue.offered, tickets_append, tickets_cons] at hmoved
      simp only [ReplayWorker.held, tickets_cons, tickets_nil, tickets_append, hmoved]
      rw [List.perm_iff_count]
      intro ticket
      simp only [List.count_append, List.count_cons, List.count_nil, droppedTickets,
        List.filterMap_cons, ReplayEvent.dropped?, List.filterMap_nil]
      omega
  | turn worker req next hworker hnext =>
    have hset := length_set next hworker
    have hone := congrArg List.length hnext
    refine ⟨h.capacity_eq, ?_, h.le, by simpa using h.accepted, ?_⟩
    · rw [length_tickets, List.length_singleton] at hone
      rw [hone] at hset
      change s.queue.len = s.queue.requests.length + _
      change _ = _ + ((s.workers.set worker _).flatMap ReplayWorker.held).length
      simp only [ReplayWorker.held, List.length_singleton] at hset
      omega
    · rw [List.append_nil, ← List.append_nil (droppedTickets events)]
      refine h.places_set hworker ?_
      rw [hnext, List.append_nil]
      exact List.Perm.refl _
  | drop worker req hworker =>
    have hset := length_set (.looking none) hworker
    have hpos := h.len_pos hworker (by simp [ReplayWorker.held])
    refine ⟨h.capacity_eq, ?_, (Nat.sub_le ..).trans h.le, ?_, ?_⟩
    · change _ - 1 = _ + ((s.workers.set worker _).flatMap ReplayWorker.held).length
      simp only [ReplayWorker.held, List.length_singleton, Option.toList_none, List.length_nil] at hset
      change _ = s.queue.requests.length + _
      omega
    · rw [acceptedTickets_append, h.accepted]
      exact List.append_nil _
    · rw [droppedTickets_append]
      refine h.places_set hworker ?_
      simp [ReplayQueue.dropReq, ReplayWorker.held, droppedTickets, ReplayEvent.dropped?]

theorem step {action : ReplayAction} (h : Accounted capacity s events)
    (hstep : s.step action = .ok (s', out)) : Accounted capacity s' (events ++ out) :=
  h.ofMove (h.move hstep)

theorem run {actions : List ReplayAction}
    (hrun : Lib.run ReplayWorkers.step (.new capacity n) actions = .ok (s, events)) :
    Accounted capacity s events :=
  run_induction (P := fun _ s events => Accounted capacity s events) (.new capacity n)
    (fun _ _ _ _ _ _ _ hinv hstep => hinv.step hstep) hrun

/-- The requests that a call of `pop_next` looks at are different ones. -/
theorem nodup_offered {worker : ℕ} {prevRequest : Option ReplayRequest} (h : Accounted capacity s events)
    (hworker : s.workers[worker]? = some (.looking prevRequest)) :
    (tickets (s.queue.offered prevRequest)).Nodup := by
  have hnodup := (h.places.nodup_iff.mpr List.nodup_range)
  refine (List.Nodup.sublist ?_ hnodup)
  rw [ReplayQueue.offered, tickets_append, List.append_assoc]
  refine List.Sublist.append_left ?_ _
  refine List.Sublist.trans ?_ (List.sublist_append_left ..)
  refine List.Sublist.map _ ?_
  exact List.sublist_flatten_of_mem (List.mem_map.mpr ⟨_, List.mem_of_getElem? hworker, rfl⟩)

end Accounted

/-! ### Order -/

/-- The requests in the queue that are ready, in its order. -/
def readyTickets (s : ReplayWorkers) : List ℕ := tickets (s.queue.requests.filter (·.ready s.now))

/-- What a worker gets, and how long a request waits. -/
structure Fair (s : ReplayWorkers) : Prop where
  /-- `pop_next` returns the first request that is ready -/
  popNext : ∀ worker prevRequest s' out, s.workers[worker]? = some (.looking prevRequest) →
    s.step (.popNext worker) = .ok (s', out) →
    out = [((s.queue.offered prevRequest).find? (·.ready s.now)).elim (.idle worker) (.popped worker ·.ticket)]
  /-- of two requests that are ready the first one is popped first -/
  fifo : ∀ actions s' out, run step s actions = .ok (s', out) →
    ∀ first second, [first, second].Sublist s.readyTickets →
      AtEach (fun before e => e.popped? = some second → first ∈ poppedTickets before) out
  /-- a request that is ready waits for those before it at most -/
  wait : ∀ actions s' out, run step s actions = .ok (s', out) →
    ∀ before ticket after, tickets s.queue.requests = before ++ ticket :: after → ticket ∈ s.readyTickets →
      ticket ∉ poppedTickets out → polls out ≤ before.length

/-- The deferred requests at the front hold back none that is ready. -/
theorem sublist_of_deferred {now : ℕ} {deferred rest l : List ReplayRequest}
    (h : l.Sublist (deferred ++ rest)) (hready : ∀ r ∈ l, r.ready now)
    (hdeferred : ∀ d ∈ deferred, d.ready now = false) : l.Sublist rest := by
  have hfilter := h.filter (·.ready now)
  rw [List.filter_eq_self.mpr hready, List.filter_append,
    List.filter_eq_nil_iff.mpr fun d hd => by simp [hdeferred d hd], List.nil_append] at hfilter
  exact hfilter.trans List.filter_sublist

/-- Two requests that wait in this order. -/
def Ordered (first second : ℕ) (s : ReplayWorkers) : Prop :=
  ∃ a b, [a, b].Sublist s.queue.requests ∧ a.ticket = first ∧ b.ticket = second ∧
    a.ready s.now ∧ b.ready s.now

/-- They stay in the order until the first one is popped. -/
theorem Ordered.move {first second : ℕ} (h : Ordered first second s) (hacc : Accounted capacity s events)
    (hmove : s.Move s' out) :
    (first ∈ poppedTickets out ∨ Ordered first second s') ∧ second ∉ poppedTickets out := by
  obtain ⟨a, b, hsub, rfl, rfl, ha, hb⟩ := h
  cases hmove with
  | tick elapsed =>
    have ha' := ReplayRequest.ready_mono ha (Nat.le_add_right s.now elapsed)
    have hb' := ReplayRequest.ready_mono hb (Nat.le_add_right s.now elapsed)
    exact ⟨.inr ⟨a, b, hsub, rfl, rfl, ha', hb'⟩, by simp [poppedTickets]⟩
  | accept request hroom hticket =>
    refine ⟨.inr ⟨a, b, hsub.trans (List.sublist_append_left ..), rfl, rfl, ha, hb⟩, ?_⟩
    simp [poppedTickets, ReplayEvent.popped?]
  | refuse =>
    refine ⟨.inr ⟨a, b, hsub, rfl, rfl, ha, hb⟩, ?_⟩
    simp [poppedTickets, ReplayEvent.popped?]
  | idle worker prevRequest hworker hall =>
    have hmem : a ∈ s.queue.offered prevRequest := List.mem_append_left _ (hsub.subset (by simp))
    rw [hall a hmem] at ha
    cases ha
  | pop worker prevRequest hworker deferred r rest hsplit hdeferred hready =>
    have hoffered : [a, b].Sublist (deferred ++ r :: rest) :=
      hsplit ▸ hsub.trans (List.sublist_append_left ..)
    have hrest := sublist_of_deferred hoffered (by simp [ha, hb]) hdeferred
    have hnodup := hacc.nodup_offered hworker
    rw [hsplit, tickets_append, tickets_cons] at hnodup
    have hnot := (List.nodup_cons.mp (List.nodup_append.mp hnodup).2.1).1
    have hticket : b ∈ rest → b.ticket ≠ r.ticket := fun hb heq =>
      hnot (heq ▸ List.mem_map_of_mem hb)
    simp only [poppedTickets, List.filterMap_cons, ReplayEvent.popped?, List.filterMap_nil,
      List.mem_singleton]
    rcases List.sublist_cons_iff.mp hrest with hrest | ⟨l, hl, hrest⟩
    · refine ⟨.inr ⟨a, b, hrest.trans (List.sublist_append_left ..), rfl, rfl, ha, hb⟩, ?_⟩
      exact hticket (hrest.subset (by simp))
    · obtain ⟨rfl, rfl⟩ := List.cons.inj hl
      exact ⟨.inl rfl, hticket (hrest.subset (by simp))⟩
  | turn worker req next hworker hnext =>
    exact ⟨.inr ⟨a, b, hsub, rfl, rfl, ha, hb⟩, by simp [poppedTickets]⟩
  | drop worker req hworker =>
    refine ⟨.inr ⟨a, b, hsub, rfl, rfl, ha, hb⟩, ?_⟩
    simp [poppedTickets, ReplayEvent.popped?]

/-- A request that is ready, with `n` requests before it. -/
def WaitsBehind (ticket n : ℕ) (s : ReplayWorkers) : Prop :=
  ∃ before r after, s.queue.requests = before ++ r :: after ∧ r.ticket = ticket ∧ r.ready s.now ∧
    before.length = n

/-- Every call of `pop_next` brings it nearer to the front. -/
theorem WaitsBehind.move {ticket n : ℕ} (h : WaitsBehind ticket n s) (hmove : s.Move s' out) :
    ticket ∈ poppedTickets out ∨ ∃ m, WaitsBehind ticket m s' ∧ m + polls out ≤ n := by
  obtain ⟨before, x, after, hrequests, rfl, hx, rfl⟩ := h
  cases hmove with
  | tick elapsed =>
    have hx' := ReplayRequest.ready_mono hx (Nat.le_add_right s.now elapsed)
    exact .inr ⟨_, ⟨before, x, after, hrequests, rfl, hx', rfl⟩, le_rfl⟩
  | accept request hroom hticket =>
    refine .inr ⟨_, ⟨before, x, after ++ [request], ?_, rfl, hx, rfl⟩, le_rfl⟩
    simp [hrequests]
  | refuse => exact .inr ⟨_, ⟨before, x, after, hrequests, rfl, hx, rfl⟩, le_rfl⟩
  | idle worker prevRequest hworker hall =>
    have hmem : x ∈ s.queue.offered prevRequest := List.mem_append_left _ (by simp [hrequests])
    rw [hall x hmem] at hx
    cases hx
  | pop worker prevRequest hworker deferred r rest hsplit hdeferred hready =>
    rw [ReplayQueue.offered, hrequests, List.append_assoc, List.cons_append] at hsplit
    rcases List.append_eq_append_iff.mp hsplit with ⟨l, rfl, hl⟩ | ⟨l, rfl, hl⟩
    · cases l with
      | nil =>
        obtain ⟨rfl, -⟩ := List.cons.inj hl
        exact .inl (by simp [poppedTickets, ReplayEvent.popped?])
      | cons y l =>
        -- a deferred request would be ready
        obtain ⟨rfl, -⟩ := List.cons.inj hl
        rw [hdeferred x (by simp)] at hx
        cases hx
    · cases l with
      | nil =>
        obtain ⟨rfl, -⟩ := List.cons.inj hl
        exact .inl (by simp [poppedTickets, ReplayEvent.popped?])
      | cons y l =>
        obtain ⟨rfl, rfl⟩ := List.cons.inj hl
        refine .inr ⟨l.length, ⟨l, x, _, by simp; rfl, rfl, hx, rfl⟩, ?_⟩
        have hpolls : polls [.popped worker r.ticket] = 1 := rfl
        rw [hpolls, List.length_append, List.length_cons]
        omega
  | turn worker req next hworker hnext =>
    exact .inr ⟨_, ⟨before, x, after, hrequests, rfl, hx, rfl⟩, le_rfl⟩
  | drop worker req hworker => exact .inr ⟨_, ⟨before, x, after, hrequests, rfl, hx, rfl⟩, le_rfl⟩

/-- Two requests that are ready are popped in their order. -/
theorem ordered_run {actions : List ReplayAction} {s₀ : ReplayWorkers} {first second : ℕ}
    (hacc : Accounted capacity s₀ events) (h : Ordered first second s₀)
    (hrun : run step s₀ actions = .ok (s, out)) :
    AtEach (fun before e => e.popped? = some second → first ∈ poppedTickets before) out := by
  have hinv := run_induction
    (P := fun _ s out => Accounted capacity s (events ++ out) ∧
      (first ∈ poppedTickets out ∨ Ordered first second s) ∧
      AtEach (fun before e => e.popped? = some second → first ∈ poppedTickets before) out)
    ⟨by simpa using hacc, .inr h, atEach_nil⟩ ?_ hrun
  · exact hinv.2.2
  rintro _ s₁ tr action s₂ out₁ - ⟨hacc₁, hordered, hat⟩ hstep
  refine ⟨by simpa using hacc₁.step hstep, ?_, atEach_append.mpr ⟨hat, ?_⟩⟩
  · rw [poppedTickets_append]
    rcases hordered with hpopped | hordered
    · exact .inl (List.mem_append_left _ hpopped)
    · exact (hordered.move hacc₁ (hacc₁.move hstep)).1.imp_left (List.mem_append_right _)
  · rintro before e after rfl hsecond
    rw [poppedTickets_append]
    rcases hordered with hpopped | hordered
    · exact List.mem_append_left _ hpopped
    · refine absurd ?_ (hordered.move hacc₁ (hacc₁.move hstep)).2
      exact List.mem_filterMap.mpr ⟨e, by simp, hsecond⟩

theorem waitsBehind_run {actions : List ReplayAction} {s₀ : ReplayWorkers} {ticket n : ℕ}
    (hacc : Accounted capacity s₀ events) (h : WaitsBehind ticket n s₀)
    (hrun : run step s₀ actions = .ok (s, out)) :
    ticket ∈ poppedTickets out ∨ ∃ m, WaitsBehind ticket m s ∧ m + polls out ≤ n := by
  have hinv := run_induction
    (P := fun _ s out => Accounted capacity s (events ++ out) ∧
      (ticket ∈ poppedTickets out ∨ ∃ m, WaitsBehind ticket m s ∧ m + polls out ≤ n))
    ⟨by simpa using hacc, .inr ⟨n, h, le_rfl⟩⟩ ?_ hrun
  · exact hinv.2
  rintro _ s₁ tr action s₂ out₁ - ⟨hacc₁, hwaits⟩ hstep
  refine ⟨by simpa using hacc₁.step hstep, ?_⟩
  rw [poppedTickets_append, polls_append]
  rcases hwaits with hpopped | ⟨m, hwaits, hm⟩
  · exact .inl (List.mem_append_left _ hpopped)
  · rcases hwaits.move (hacc₁.move hstep) with hpopped | ⟨m', hwaits', hm'⟩
    · exact .inl (List.mem_append_right _ hpopped)
    · exact .inr ⟨m', hwaits', by omega⟩

/-- A ready request of the queue, at its place. -/
theorem waitsBehind_of_mem {before after : List ℕ} {ticket : ℕ} (hacc : Accounted capacity s events)
    (hrequests : tickets s.queue.requests = before ++ ticket :: after) (hready : ticket ∈ s.readyTickets) :
    WaitsBehind ticket before.length s := by
  obtain ⟨pre, rest, hpre, rfl, hrest⟩ := List.map_eq_append_iff.mp hrequests
  obtain ⟨r, post, rfl, rfl, -⟩ := List.map_eq_cons_iff.mp hrest
  refine ⟨pre, r, post, hpre, rfl, ?_, (length_tickets pre).symm⟩
  obtain ⟨x, hx, hticket⟩ := List.mem_map.mp hready
  obtain ⟨hx, hxready⟩ := List.mem_filter.mp hx
  -- the tickets of the queue are different
  have hnodup : (tickets s.queue.requests).Nodup := by
    have := hacc.places.nodup_iff.mpr List.nodup_range
    rw [List.append_assoc] at this
    exact (List.nodup_append.mp this).1
  have hr : r ∈ s.queue.requests := by simp [hpre]
  rwa [← List.inj_on_of_nodup_map hnodup hx hr hticket]

theorem popNext_out {worker : ℕ} {prevRequest : Option ReplayRequest} (hacc : Accounted capacity s events)
    (hworker : s.workers[worker]? = some (.looking prevRequest))
    (hstep : s.step (.popNext worker) = .ok (s', out)) :
    out = [((s.queue.offered prevRequest).find? (·.ready s.now)).elim (.idle worker)
      (.popped worker ·.ticket)] := by
  have hlen : prevRequest ≠ none → 0 < s.queue.len := fun hprev =>
    hacc.len_pos hworker (by simpa [ReplayWorker.held] using hprev)
  simp only [step, hworker] at hstep
  rcases ReplayQueue.popNext_cases s.now hlen with
    ⟨hall, heq⟩ | ⟨deferred, r, rest, hsplit, hdeferred, hready, heq⟩
  · rw [heq] at hstep
    cases hstep
    rw [List.find?_eq_none.mpr fun r hr => by simp [hall r hr]]
    rfl
  · rw [heq] at hstep
    cases hstep
    have hfind : (deferred ++ r :: rest).find? (·.ready s.now) = some r := by
      rw [List.find?_append, List.find?_eq_none.mpr fun d hd => by simp [hdeferred d hd],
        Option.none_or, List.find?_cons_of_pos hready]
    rw [hsplit, hfind]
    rfl

theorem Accounted.fair (h : Accounted capacity s events) : Fair s where
  popNext _ _ _ _ hworker hstep := popNext_out h hworker hstep
  fifo actions s' out hrun first second hsub := by
    obtain ⟨l, hl, hmap⟩ := List.sublist_map_iff.mp hsub
    obtain ⟨a, l', rfl, rfl, hl'⟩ := List.map_eq_cons_iff.mp hmap.symm
    obtain ⟨b, l'', rfl, rfl, hnil⟩ := List.map_eq_cons_iff.mp hl'
    obtain rfl := List.map_eq_nil_iff.mp hnil
    have ha := (List.mem_filter.mp (hl.subset (List.mem_cons_self ..))).2
    have hb := (List.mem_filter.mp (hl.subset (List.mem_cons_of_mem _ (List.mem_singleton.mpr rfl)))).2
    exact ordered_run h ⟨a, b, hl.trans List.filter_sublist, rfl, rfl, ha, hb⟩ hrun
  wait actions s' out hrun before ticket after hrequests hready hnot := by
    rcases waitsBehind_run h (waitsBehind_of_mem h hrequests hready) hrun with hpopped | ⟨m, -, hm⟩
    · exact absurd hpopped hnot
    · omega

/-- **The replay queue.** In every run of any number of workers the counter is the number of the requests in
the queue and in flight, at most the capacity; every request that was accepted is in one place until it is
dropped, once; a worker gets the first request that is ready, and the ready ones are taken in their order. -/
theorem replay_queue {actions : List ReplayAction}
    (h : run step (.new capacity n) actions = .ok (s, events)) : Accounted capacity s events ∧ Fair s :=
  ⟨Accounted.run h, (Accounted.run h).fair⟩

/-- A turn that finds nothing to read, of a client that may be finished. -/
def quietTurn (finished : Bool) : TurnInput where
  finished
  replayGeneration := 0
  head := .storage 0
  recoveryEpoch := 0
  messagesRecoveryEpoch := 0
  popped := 0
  getHeadByReplayIndex _ := none
  full := false
  read _ state := state

/-- Two workers and three requests, of which the first one is deferred until `60`. One request is served and
comes back deferred, one is dropped. -/
theorem replay_queue_deferred : ∃ s events,
    run step (.new 4 2) [.pushNew (some 60) 0, .pushNew none 0, .pushNew none 0, .popNext 0, .popNext 1,
      .turn 0 (quietTurn false), .turn 1 (quietTurn true), .dropReq 1, .popNext 0] =
        .ok (s, events) ∧
    events = [.accepted 0, .accepted 1, .accepted 2, .popped 0 1, .popped 1 2, .dropped 2, .idle 0] ∧
    Accounted 4 s events ∧ Fair s := by
  obtain ⟨s, events, h, hevents⟩ := exists_of_returns
    (p := fun _ (events : List ReplayEvent) => decide (events = [.accepted 0, .accepted 1, .accepted 2,
      .popped 0 1, .popped 1 2, .dropped 2, .idle 0]))
    (x := run step (.new 4 2) [.pushNew (some 60) 0, .pushNew none 0, .pushNew none 0, .popNext 0, .popNext 1,
      .turn 0 (quietTurn false), .turn 1 (quietTurn true), .dropReq 1, .popNext 0])
    (by decide +kernel)
  exact ⟨s, events, h, of_decide_eq_true hevents, replay_queue h⟩

end ReplayWorkers

end Richat
