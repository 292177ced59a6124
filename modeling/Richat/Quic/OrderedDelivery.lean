import Richat.Quic.Transport
import Richat.Lib.InOrder

/-!
# Ordered delivery over many streams

The ids of one stream go up, so what a reader holds back is above everything that came on its stream
before. `InOrder` says where the messages are that the client has not yielded: on a stream or held back.
`ReadInv` adds on which stream an id is, which is what a poll that returns `Pending` rests on: a reader
that did not register its waker has returned a later id, so the id that is waited for was sent, and not on
this stream.
-/

namespace Richat.Quic

open Lib

variable {μ : Type*} {n maxBacklog : ℕ}

/-! ### The trace -/

def Frame.entry? : Frame μ → Option (ℕ × μ)
  | .message msgId data => some (msgId, data)
  | .close _ => none

/-- The messages of a stream with their ids. -/
def entries (frames : List (Frame μ)) : List (ℕ × μ) := frames.filterMap Frame.entry?

@[simp] theorem entries_nil : entries ([] : List (Frame μ)) = [] := rfl

@[simp] theorem entries_append (fs gs : List (Frame μ)) : entries (fs ++ gs) = entries fs ++ entries gs :=
  List.filterMap_append

@[simp] theorem entries_message (msgId : ℕ) (data : μ) (fs : List (Frame μ)) :
    entries (.message msgId data :: fs) = (msgId, data) :: entries fs := rfl

@[simp] theorem entries_close (error : ℤ) (fs : List (Frame μ)) : entries (.close error :: fs) = entries fs :=
  rfl

namespace SendEvent

def accepted? : SendEvent μ → Option μ
  | accepted data => some data
  | _ => none

def written? : SendEvent μ → Option (ℕ × μ)
  | write _ frame => frame.entry?
  | _ => none

end SendEvent

/-- The messages that the send loop has taken from the source. -/
def acceptedIn (sent : List (SendEvent μ)) : List μ := sent.filterMap SendEvent.accepted?

/-- The messages given to a stream, with their ids. -/
def writtenIn (sent : List (SendEvent μ)) : List (ℕ × μ) := sent.filterMap SendEvent.written?

@[simp] theorem acceptedIn_append (sent out : List (SendEvent μ)) :
    acceptedIn (sent ++ out) = acceptedIn sent ++ acceptedIn out := List.filterMap_append

@[simp] theorem writtenIn_append (sent out : List (SendEvent μ)) :
    writtenIn (sent ++ out) = writtenIn sent ++ writtenIn out := List.filterMap_append

@[simp] theorem acceptedIn_nil : acceptedIn ([] : List (SendEvent μ)) = [] := rfl
@[simp] theorem writtenIn_nil : writtenIn ([] : List (SendEvent μ)) = [] := rfl

@[simp] theorem acceptedIn_cons (e : SendEvent μ) (sent : List (SendEvent μ)) :
    acceptedIn (e :: sent) = e.accepted?.toList ++ acceptedIn sent := by
  cases e <;> rfl

@[simp] theorem writtenIn_cons (e : SendEvent μ) (sent : List (SendEvent μ)) :
    writtenIn (e :: sent) = e.written?.toList ++ writtenIn sent := by
  rw [writtenIn, List.filterMap_cons]
  cases h : e.written? <;> rfl

@[simp] theorem acceptedIn_finish (l : List ℕ) : acceptedIn (l.map (SendEvent.finish (μ := μ))) = [] := by
  induction l with
  | nil => rfl
  | cons i l ih => simp [ih, SendEvent.accepted?]

@[simp] theorem writtenIn_finish (l : List ℕ) : writtenIn (l.map (SendEvent.finish (μ := μ))) = [] := by
  induction l with
  | nil => rfl
  | cons i l ih => simp [ih, SendEvent.written?]

def PollEvent.item? : PollEvent μ → Option (ℕ × μ)
  | .item msgId data => some (msgId, data)
  | _ => none

/-- The messages that the client has yielded, with their ids. -/
def itemsIn (polls : List (PollEvent μ)) : List (ℕ × μ) := polls.filterMap PollEvent.item?

@[simp] theorem itemsIn_append (polls out : List (PollEvent μ)) :
    itemsIn (polls ++ out) = itemsIn polls ++ itemsIn out := List.filterMap_append

@[simp] theorem itemsIn_nil : itemsIn ([] : List (PollEvent μ)) = [] := rfl

@[simp] theorem itemsIn_singleton (e : PollEvent μ) : itemsIn [e] = e.item?.toList := by
  cases e <;> rfl

namespace Event

def sent? : Event μ → Option (SendEvent μ)
  | sent e => some e
  | polled _ => none

def polled? : Event μ → Option (PollEvent μ)
  | sent _ => none
  | polled e => some e

end Event

/-- What the send loop did. -/
def sentIn (tr : List (Event μ)) : List (SendEvent μ) := tr.filterMap Event.sent?

/-- What the polls of the client returned. -/
def polledIn (tr : List (Event μ)) : List (PollEvent μ) := tr.filterMap Event.polled?

@[simp] theorem sentIn_append (tr out : List (Event μ)) : sentIn (tr ++ out) = sentIn tr ++ sentIn out :=
  List.filterMap_append

@[simp] theorem polledIn_append (tr out : List (Event μ)) :
    polledIn (tr ++ out) = polledIn tr ++ polledIn out := List.filterMap_append

@[simp] theorem sentIn_sent (out : List (SendEvent μ)) : sentIn (out.map Event.sent) = out := by
  induction out with
  | nil => rfl
  | cons e out ih => simpa [sentIn, Event.sent?] using ih

@[simp] theorem polledIn_sent (out : List (SendEvent μ)) : polledIn (out.map Event.sent) = [] := by
  induction out with
  | nil => rfl
  | cons e out ih => simp [polledIn, Event.polled?]

@[simp] theorem sentIn_polled (out : List (PollEvent μ)) : sentIn (out.map Event.polled) = [] := by
  induction out with
  | nil => rfl
  | cons e out ih => simp [sentIn, Event.sent?]

@[simp] theorem polledIn_polled (out : List (PollEvent μ)) : polledIn (out.map Event.polled) = out := by
  induction out with
  | nil => rfl
  | cons e out ih => simpa [polledIn, Event.polled?] using ih

/-! ### The send loop -/

theorem Server.step_eq_ok {s s' : Server μ} {action : ServerAction μ} {out : List (SendEvent μ)} :
    s.step maxBacklog action = .ok (s', out) ↔ s.running ∧ ∃ s₁ out₁, s.select action = some (s₁, out₁) ∧
      (s₁.loopHead maxBacklog).1 = s' ∧ out₁ ++ (s₁.loopHead maxBacklog).2 = out := by
  unfold Server.step
  by_cases hrun : s.running
  · rcases hselect : s.select action with _ | ⟨s₁, out₁⟩
    · simp [hrun, hselect]
    · simp only [hrun, hselect, if_true, Except.ok.injEq, Prod.mk.injEq, Option.some.injEq, true_and]
      constructor
      · rintro ⟨rfl, rfl⟩
        exact ⟨s₁, out₁, ⟨rfl, rfl⟩, rfl, rfl⟩
      · rintro ⟨_, _, ⟨rfl, rfl⟩, rfl, rfl⟩
        exact ⟨rfl, rfl⟩
  · simp [hrun]

/-- What the send loop has written: the messages that it has taken, numbered, except the one it holds. -/
structure SendInv (n : ℕ) (s : Server μ) (sent : List (SendEvent μ)) : Prop where
  numbered : writtenIn sent ++ s.nextMessage.toList.map (Prod.mk s.msgId) = number 0 (acceptedIn sent)
  msgId : s.msgId = (writtenIn sent).length
  streams : (s.streams ++ s.set.map Prod.snd).Perm (if s.running then List.range n else [])
  bounded : ∀ i f, .write i f ∈ sent → i < n

namespace SendInv

variable {s s' : Server μ} {sent out : List (SendEvent μ)}

theorem new (n : ℕ) : SendInv n (.new μ n) [] where
  numbered := rfl
  msgId := rfl
  streams := by simp [Server.new]
  bounded := by simp

/-- When the loop holds no message all were given to streams. -/
theorem writtenIn_eq (h : SendInv n s sent) (hnext : s.nextMessage = none) :
    writtenIn sent = number 0 (acceptedIn sent) := by
  have hnumbered := h.numbered
  rwa [hnext, Option.toList_none, List.map_nil, List.append_nil] at hnumbered

theorem length_writtenIn (h : SendInv n s sent) (hnext : s.nextMessage = none) :
    (writtenIn sent).length = (acceptedIn sent).length := by
  rw [h.writtenIn_eq hnext, length_number]

/-- A free stream is one of the streams. -/
theorem stream_lt {stream : ℕ} {streams : List ℕ} (h : SendInv n s sent)
    (hstreams : s.streams = stream :: streams) : stream < n := by
  have hmem := h.streams.mem_iff.mp (List.mem_append_left _ (hstreams ▸ List.mem_cons_self))
  split at hmem
  · exact List.mem_range.mp hmem
  · exact absurd hmem List.not_mem_nil

/-- A task takes a free stream. -/
theorem spawn {msgId stream : ℕ} {streams : List ℕ} (h : SendInv n s sent)
    (hstreams : s.streams = stream :: streams) :
    (streams ++ (s.set ++ [(msgId, stream)]).map Prod.snd).Perm
      (if s.running then List.range n else []) := by
  refine List.Perm.trans ?_ h.streams
  rw [hstreams, List.map_append, List.map_singleton, ← List.append_assoc]
  exact List.perm_append_singleton ..

theorem bounded_write {stream : ℕ} {streams : List ℕ} {frame : Frame μ} (h : SendInv n s sent)
    (hstreams : s.streams = stream :: streams) :
    ∀ i f, .write i f ∈ sent ++ [.write stream frame] → i < n := by
  intro i f hi
  rcases List.mem_append.mp hi with hi | hi
  · exact h.bounded i f hi
  · obtain ⟨rfl, -⟩ := SendEvent.write.inj (List.mem_singleton.mp hi)
    exact h.stream_lt hstreams

theorem loopHead (h : SendInv n s sent) :
    SendInv n (s.loopHead maxBacklog).1 (sent ++ (s.loopHead maxBacklog).2) := by
  unfold Server.loopHead
  split
  · split
    · rename_i data stream streams hnext hstreams
      have hnumbered := h.numbered
      rw [hnext] at hnumbered
      refine ⟨?_, ?_, h.spawn hstreams, h.bounded_write hstreams⟩
      · simpa [SendEvent.written?, SendEvent.accepted?, Frame.entry?] using hnumbered
      · simp [h.msgId, SendEvent.written?, Frame.entry?]
    · simpa using h
  · simpa using h

theorem join {task : ℕ} (h : SendInv n s sent) (hjoin : s.join task = some s') :
    SendInv n s' sent ∧ s'.nextMessage = s.nextMessage := by
  unfold Server.join at hjoin
  split at hjoin
  · cases hjoin
  · rename_i msgId stream hget
    cases hjoin
    obtain ⟨hlt, hget⟩ := List.getElem?_eq_some_iff.mp hget
    have hperm : (stream :: (s.set.eraseIdx task).map Prod.snd).Perm (s.set.map Prod.snd) := by
      have := (List.getElem_cons_eraseIdx_perm hlt).map Prod.snd
      rwa [hget] at this
    refine ⟨⟨h.numbered, h.msgId, List.Perm.trans ?_ h.streams, h.bounded⟩, rfl⟩
    rw [List.append_assoc]
    exact hperm.append_left _

theorem sendClose {error : RecvError} (h : SendInv n s sent) (hnext : s.nextMessage = none)
    (hclose : s.sendClose error = some (s', out)) : SendInv n s' (sent ++ out) := by
  unfold Server.sendClose at hclose
  split at hclose
  · cases hclose
  · rename_i stream streams hstreams
    cases hclose
    refine ⟨?_, ?_, h.spawn hstreams, ?_⟩
    · simpa [SendEvent.written?, SendEvent.accepted?, Frame.entry?, hnext] using h.numbered
    · simpa [SendEvent.written?, Frame.entry?] using h.msgId
    · intro i f hi
      exact h.bounded_write hstreams i f (by simpa using hi)

theorem select {action : ServerAction μ} (h : SendInv n s sent)
    (hselect : s.select action = some (s', out)) : SendInv n s' (sent ++ out) := by
  cases action with
  | message data =>
    simp only [Server.select] at hselect
    split at hselect
    · rename_i hnext
      cases hselect
      refine ⟨?_, ?_, h.streams, fun i f hi => h.bounded i f (by simpa using hi)⟩
      · have hwritten := h.writtenIn_eq (Option.isNone_iff_eq_none.mp hnext.1)
        have hid : s.msgId = (acceptedIn sent).length := by rw [h.msgId, hwritten, length_number]
        simp [SendEvent.written?, SendEvent.accepted?, number_append, hwritten, hid]
      · simpa [SendEvent.written?] using h.msgId
    · cases hselect
  | failed error task =>
    simp only [Server.select] at hselect
    split at hselect
    · rename_i hnext
      have hnone := Option.isNone_iff_eq_none.mp hnext.1
      split at hselect
      · obtain ⟨s₁, hjoin, hclose⟩ := Option.bind_eq_some_iff.mp hselect
        obtain ⟨h₁, hnext₁⟩ := h.join hjoin
        exact h₁.sendClose (hnext₁.trans hnone) hclose
      · exact h.sendClose hnone hselect
    · cases hselect
  | ended =>
    simp only [Server.select] at hselect
    split at hselect
    · cases hselect
      refine ⟨?_, ?_, by simp, fun i f hi => h.bounded i f (by simpa using hi)⟩
      · rw [writtenIn_append, acceptedIn_append, writtenIn_finish, acceptedIn_finish, List.append_nil,
          List.append_nil]
        exact h.numbered
      · rw [writtenIn_append, writtenIn_finish, List.append_nil]
        exact h.msgId
    · cases hselect
  | joined task =>
    simp only [Server.select, Option.map_eq_some_iff, Prod.mk.injEq] at hselect
    obtain ⟨s₁, hjoin, rfl, rfl⟩ := hselect
    simpa using (h.join hjoin).1

theorem step {action : ServerAction μ} (h : SendInv n s sent)
    (hstep : s.step maxBacklog action = .ok (s', out)) : SendInv n s' (sent ++ out) := by
  obtain ⟨-, s₁, out₁, hselect, rfl, rfl⟩ := Server.step_eq_ok.mp hstep
  rw [← List.append_assoc]
  exact (h.select hselect).loopHead

/-- The ids are numbers in the order in which they are written. -/
theorem getElem?_writtenIn (h : SendInv n s sent) {k : ℕ} {e : ℕ × μ} (he : (writtenIn sent)[k]? = some e) :
    e.1 = k := by
  have hnum : (number 0 (acceptedIn sent))[k]? = some e := by
    obtain ⟨hlt, -⟩ := List.getElem?_eq_some_iff.mp he
    rw [← h.numbered, List.getElem?_append_left hlt, he]
  rw [getElem?_number, Option.map_eq_some_iff] at hnum
  obtain ⟨data, -, rfl⟩ := hnum
  exact Nat.zero_add k

/-- An id that was given out was given to a stream. -/
theorem exists_write (h : SendInv n s sent) {k : ℕ} (hk : k < (writtenIn sent).length) :
    ∃ i data, .write i (.message k data) ∈ sent := by
  have hget := List.getElem?_eq_getElem hk
  obtain ⟨e, he, hwritten⟩ := List.mem_filterMap.mp (List.getElem_mem hk)
  have hid := h.getElem?_writtenIn hget
  cases e with
  | write i frame =>
    cases frame with
    | message msgId data =>
      simp only [SendEvent.written?, Frame.entry?, Option.some.injEq] at hwritten
      rw [← hwritten] at hid
      obtain rfl : msgId = k := hid
      exact ⟨i, data, he⟩
    | close error => simp [SendEvent.written?, Frame.entry?] at hwritten
  | _ => simp [SendEvent.written?] at hwritten

end SendInv

/-! ### The client -/

/-- The ids on a stream. -/
def UniStream.ids (stream : UniStream μ) : List ℕ := (entries stream.queue).map Prod.fst

/-- The messages on the streams. -/
def transit (n : ℕ) (streams : ℕ → UniStream μ) : List (ℕ × μ) :=
  (List.range n).flatMap fun i => entries (streams i).queue

/-- A poll that has registered these streams is woken when the message with the id comes. -/
def Awake (n : ℕ) (sent : List (SendEvent μ)) (msgId : ℕ) (registered : List ℕ) : Prop :=
  (∀ i data, .write i (.message msgId data) ∈ sent → i ∈ registered) ∧
    ((∀ e ∈ writtenIn sent, e.1 ≠ msgId) → ∀ i < n, i ∈ registered)

/-- The message that a `poll_next` in progress waits for is not held back, and not on the streams of the
readers that returned another one. -/
structure Polling (n : ℕ) (client : Client μ) (streams : ℕ → UniStream μ) (sent : List (SendEvent μ))
    (polled : List (ℕ × Bool)) : Prop where
  missing : client.messages.get? client.msgId = none
  skipped : ∀ i, (i, false) ∈ polled →
    client.msgId < (writtenIn sent).length ∧ client.msgId ∉ (streams i).ids
  readers : ∃ start, polled.map Prod.fst = (List.range polled.length).map (fun k => (start + k) % n) ∧
    client.index = (start + polled.length) % n

structure ReadInv (n : ℕ) (client : Client μ) (streams : ℕ → UniStream μ) (sent : List (SendEvent μ))
    (polls : List (PollEvent μ)) : Prop where
  order : InOrder ((writtenIn sent).map Prod.snd) (transit n streams) client.messages client.msgId
  items : itemsIn polls = (writtenIn sent).take client.msgId
  increasing : ∀ i, (streams i).ids.Pairwise (· < ·)
  located : ∀ i msgId data, .write i (.message msgId data) ∈ sent → client.msgId ≤ msgId →
    client.messages.contains msgId ∨ msgId ∈ (streams i).ids
  index : client.index % n = client.index
  polling : ∀ polled, client.polled = some polled → Polling n client streams sent polled

section Poll

variable {client client' : Client μ} {streams streams' : ℕ → UniStream μ} {sent sent' : List (SendEvent μ)}
  {polls out : List (PollEvent μ)} {polled : List (ℕ × Bool)}

/-- `n` polls in turn are polls of all readers. -/
theorem exists_turn {i : ℕ} (start : ℕ) (hi : i < n) : ∃ k < n, (start + k) % n = i := by
  refine ⟨(i + n - start % n) % n, Nat.mod_lt _ (by omega), ?_⟩
  have hlt : start % n < n := Nat.mod_lt _ (by omega)
  rw [Nat.add_mod_mod, ← Nat.mod_add_mod, show start % n + (i + n - start % n) = i + n by omega,
    Nat.add_mod_right, Nat.mod_eq_of_lt hi]

theorem Polling.mem (h : Polling n client streams sent polled) (hall : polled.length = n) {i : ℕ}
    (hi : i < n) : (i, true) ∈ polled ∨ (i, false) ∈ polled := by
  obtain ⟨start, hreaders, -⟩ := h.readers
  obtain ⟨k, hk, hki⟩ := exists_turn start hi
  have hmem : i ∈ polled.map Prod.fst := by
    rw [hreaders, hall]
    exact List.mem_map.mpr ⟨k, List.mem_range.mpr hk, hki⟩
  obtain ⟨⟨j, pending⟩, hj, rfl⟩ := List.mem_map.mp hmem
  cases pending with
  | true => exact .inl hj
  | false => exact .inr hj

/-- The reader at `index` joins those that were polled. -/
theorem Polling.snoc {messages : SortedMap ℕ μ} {pending : Bool}
    (h : Polling n client streams sent polled)
    (hmissing : messages.get? client.msgId = none)
    (hids : ∀ i, client.msgId ∈ (streams' i).ids → client.msgId ∈ (streams i).ids)
    (hskip : pending = false →
      client.msgId < (writtenIn sent).length ∧ client.msgId ∉ (streams' client.index).ids) :
    Polling n
      { client with
        messages
        index := (client.index + 1) % n
        polled := some (polled ++ [(client.index, pending)]) }
      streams' sent (polled ++ [(client.index, pending)]) where
  missing := hmissing
  skipped i hi := by
    rcases List.mem_append.mp hi with hi | hi
    · obtain ⟨hlt, hnot⟩ := h.skipped i hi
      exact ⟨hlt, fun hin => hnot (hids i hin)⟩
    · obtain ⟨rfl, hpending⟩ := Prod.mk.inj (List.mem_singleton.mp hi)
      exact hskip hpending.symm
  readers := by
    obtain ⟨start, hreaders, hindex⟩ := h.readers
    refine ⟨start, ?_, ?_⟩
    · simp only [List.map_append, hreaders, List.map_singleton, List.length_append, List.length_singleton,
        List.range_succ, ← hindex]
    · simp only [List.length_append, List.length_singleton, hindex, Nat.mod_add_mod]
      rw [Nat.add_assoc]

namespace ReadInv

/-- Where the messages are is all that counts of the streams. -/
theorem congr (h : ReadInv n client streams sent polls)
    (hentries : ∀ i, entries (streams' i).queue = entries (streams i).queue)
    (hwritten : writtenIn sent' = writtenIn sent)
    (hsent : ∀ i msgId data, .write i (.message msgId data) ∈ sent' → .write i (.message msgId data) ∈ sent) :
    ReadInv n client streams' sent' polls := by
  have hids : ∀ i, (streams' i).ids = (streams i).ids := fun i => congrArg (List.map Prod.fst) (hentries i)
  have htransit : transit n streams' = transit n streams := List.flatMap_congr fun i _ => hentries i
  refine ⟨?_, ?_, ?_, ?_, h.index, ?_⟩
  · rw [hwritten, htransit]
    exact h.order
  · rw [hwritten]
    exact h.items
  · intro i
    rw [hids]
    exact h.increasing i
  · intro i msgId data hmem hle
    rw [hids]
    exact h.located i msgId data (hsent i msgId data hmem) hle
  · intro polled hpolled
    obtain ⟨hmissing, hskipped, hreaders⟩ := h.polling polled hpolled
    refine ⟨hmissing, fun i hi => ?_, hreaders⟩
    rw [hwritten, hids]
    exact hskipped i hi

theorem new (n : ℕ) : ReadInv n (.new μ) (fun _ => .new μ) [] [] where
  order := by
    have htransit : transit n (fun _ => UniStream.new μ) = [] := by
      simp [transit, UniStream.queue, UniStream.new]
    rw [htransit]
    exact .nil
  items := rfl
  increasing _ := List.Pairwise.nil
  located _ _ _ h := by simp at h
  index := Nat.zero_mod n
  polling _ h := by simp [Client.new] at h

/-- A stream changes, and the messages on it do not. -/
theorem update {i : ℕ} (stream : UniStream μ) (h : ReadInv n client streams sent polls)
    (hentries : entries stream.queue = entries (streams i).queue) :
    ReadInv n client (Function.update streams i stream) sent polls := by
  refine h.congr (fun j => ?_) rfl fun _ _ _ => id
  by_cases hj : j = i
  · subst hj
    rw [Function.update_self, hentries]
  · rw [Function.update_of_ne hj]

theorem write_message {i : ℕ} {data : μ} (h : ReadInv n client streams sent polls) (hi : i < n) :
    ReadInv n client
      (Function.update streams i ((streams i).write (.message (writtenIn sent).length data)))
      (sent ++ [.write i (.message (writtenIn sent).length data)]) polls := by
  set msgId := (writtenIn sent).length with hmsgId
  set streams' := Function.update streams i ((streams i).write (.message msgId data)) with hstreams'
  have hself : entries (streams' i).queue = entries (streams i).queue ++ [(msgId, data)] := by
    simp [hstreams', UniStream.queue, UniStream.write]
  have hother : ∀ j, j ≠ i → streams' j = streams j := fun j hj => Function.update_of_ne hj _ _
  have hids : ∀ j k, k ∈ (streams' j).ids ↔ k ∈ (streams j).ids ∨ j = i ∧ k = msgId := by
    intro j k
    by_cases hj : j = i
    · subst hj
      simp [UniStream.ids, hself]
    · simp [hother j hj, hj]
  have hwritten : writtenIn (sent ++ [.write i (.message msgId data)]) = writtenIn sent ++ [(msgId, data)] := by
    simp [SendEvent.written?, Frame.entry?]
  have hlt : ∀ j, ∀ k ∈ (streams j).ids, j < n → k < msgId := by
    intro j k hk hj
    obtain ⟨e, he, rfl⟩ := List.mem_map.mp hk
    obtain ⟨-, hget⟩ := h.order.mem_transit e
      (List.mem_flatMap.mpr ⟨j, List.mem_range.mpr hj, he⟩)
    obtain ⟨hlt, -⟩ := List.getElem?_eq_some_iff.mp hget
    simpa using hlt
  refine ⟨?_, ?_, ?_, ?_, h.index, ?_⟩
  · have hperm : (transit n streams').Perm ((msgId, data) :: transit n streams) := by
      refine flatMap_perm_cons List.nodup_range (List.mem_range.mpr hi) ?_ fun j hj => ?_
      · rw [hself]
        exact List.perm_append_singleton ..
      · rw [hother j hj]
    have hproduce := h.order.produce data
    rw [List.length_map, ← hmsgId] at hproduce
    rw [hwritten, List.map_append, List.map_singleton]
    exact hproduce.perm ((List.perm_append_singleton ..).trans hperm.symm)
  · have hle := h.order.le
    rw [List.length_map] at hle
    rw [hwritten, List.take_append_of_le_length hle]
    exact h.items
  · intro j
    by_cases hj : j = i
    · subst hj
      rw [UniStream.ids, hself, List.map_append, List.pairwise_append]
      refine ⟨h.increasing j, by simp, fun a ha b hb => ?_⟩
      obtain rfl := List.mem_singleton.mp hb
      exact hlt j a ha hi
    · rw [hother j hj]
      exact h.increasing j
  · intro j k d hmem hle
    rw [hids]
    rcases List.mem_append.mp hmem with hmem | hmem
    · rcases h.located j k d hmem hle with hcontains | hin
      · exact .inl hcontains
      · exact .inr (.inl hin)
    · simp only [List.mem_singleton, SendEvent.write.injEq, Frame.message.injEq] at hmem
      exact .inr (.inr ⟨hmem.1, hmem.2.1⟩)
  · intro polled hpolled
    obtain ⟨hmissing, hskipped, hreaders⟩ := h.polling polled hpolled
    refine ⟨hmissing, fun j hj => ?_, hreaders⟩
    obtain ⟨hle, hnot⟩ := hskipped j hj
    rw [hwritten, List.length_append, hids]
    exact ⟨by omega, fun hin => hin.elim hnot fun heq => by omega⟩

/-- One step of the send loop, event by event. -/
theorem apply {e : SendEvent μ} (h : ReadInv n client streams sent polls)
    (hnum : ∀ e' ∈ (writtenIn (sent ++ [e]))[(writtenIn sent).length]?, e'.1 = (writtenIn sent).length)
    (hbounded : ∀ i f, .write i f ∈ sent ++ [e] → i < n) :
    ReadInv n client (e.apply streams) (sent ++ [e]) polls := by
  cases e with
  | accepted data =>
    exact h.congr (fun _ => rfl) (by simp [SendEvent.written?]) fun _ _ _ hmem => by simpa using hmem
  | failed error =>
    exact h.congr (fun _ => rfl) (by simp [SendEvent.written?]) fun _ _ _ hmem => by simpa using hmem
  | finish i =>
    have hfinish : ReadInv n client ((SendEvent.finish i).apply streams) sent polls := h.update _ rfl
    exact hfinish.congr (fun _ => rfl) (by simp [SendEvent.written?]) fun _ _ _ hmem => by simpa using hmem
  | write i frame =>
    have hi : i < n := hbounded i frame (by simp)
    cases frame with
    | message msgId data =>
      obtain rfl : msgId = (writtenIn sent).length :=
        hnum (msgId, data) (by simp [SendEvent.written?, Frame.entry?])
      exact h.write_message hi
    | close error =>
      have hclose : ReadInv n client ((SendEvent.write i (.close error)).apply streams) sent polls :=
        h.update _ (by simp [UniStream.queue, UniStream.write])
      exact hclose.congr (fun _ => rfl) (by simp [SendEvent.written?, Frame.entry?]) fun _ _ _ hmem => by
        simpa using hmem

theorem send (h : ReadInv n client streams sent polls) :
    ∀ {out : List (SendEvent μ)},
      (∀ k (e : ℕ × μ), (writtenIn (sent ++ out))[k]? = some e → e.1 = k) →
      (∀ i f, .write i f ∈ sent ++ out → i < n) →
      ReadInv n client (out.foldl SendEvent.apply streams) (sent ++ out) polls := by
  intro out
  induction out generalizing streams sent with
  | nil =>
    intro _ _
    simpa using h
  | cons e out ih =>
    intro hnum hbounded
    have hcons : sent ++ e :: out = sent ++ [e] ++ out := by simp
    rw [hcons] at hnum hbounded ⊢
    refine ih (h.apply (fun e' he' => hnum _ e' ?_) fun i f hi => hbounded i f ?_) hnum hbounded
    · rw [writtenIn_append]
      obtain ⟨hlt, -⟩ := List.getElem?_eq_some_iff.mp he'
      rw [List.getElem?_append_left hlt]
      exact he'
    · exact List.mem_append_left _ hi

theorem arrive {i : ℕ} {stream : UniStream μ} (h : ReadInv n client streams sent polls)
    (harrive : (streams i).arrive = some stream) :
    ReadInv n client (Function.update streams i stream) sent polls := by
  refine h.update _ (congrArg entries ?_)
  unfold UniStream.arrive at harrive
  split at harrive
  · rename_i hflight
    cases harrive
    simp [UniStream.queue, hflight]
  · split at harrive <;> cases harrive
    rfl

/-- The client yields the next message. -/
theorem items_snoc {data : μ} (h : ReadInv n client streams sent polls)
    (hnum : ∀ k (e : ℕ × μ), (writtenIn sent)[k]? = some e → e.1 = k)
    (hget : ((writtenIn sent).map Prod.snd)[client.msgId]? = some data) :
    itemsIn (polls ++ [.item client.msgId data]) = (writtenIn sent).take (client.msgId + 1) := by
  rw [List.getElem?_map, Option.map_eq_some_iff] at hget
  obtain ⟨e, he, rfl⟩ := hget
  have hid := hnum _ e he
  rw [itemsIn_append, h.items, List.take_add_one, he, itemsIn_singleton]
  simp [PollEvent.item?, ← hid]

theorem pollNext (h : ReadInv n client streams sent polls)
    (hnum : ∀ k (e : ℕ × μ), (writtenIn sent)[k]? = some e → e.1 = k)
    (hpoll : client.pollNext = some (client', out)) : ReadInv n client' streams sent (polls ++ out) := by
  unfold Client.pollNext at hpoll
  split at hpoll
  · cases hpoll
  · rename_i hidle
    obtain ⟨-, hpolled⟩ := not_or.mp hidle
    rw [Option.not_isSome_iff_eq_none] at hpolled
    split at hpoll
    · rename_i data hdata
      cases hpoll
      obtain ⟨hget, horder⟩ := h.order.take hdata
      refine ⟨horder, h.items_snoc hnum hget, h.increasing, fun i k d hmem hle => ?_, h.index, ?_⟩
      · dsimp only at hle
        rcases h.located i k d hmem (by omega) with hcontains | hin
        · refine .inl ?_
          rw [SortedMap.contains_erase]
          simp [hcontains, show k ≠ client.msgId by omega]
        · exact .inr hin
      · intro polled hsome
        rw [hpolled] at hsome
        cases hsome
    · rename_i hmissing
      cases hpoll
      rw [List.append_nil]
      refine ⟨h.order, h.items, h.increasing, h.located, h.index, ?_⟩
      rintro _ ⟨⟩
      exact ⟨hmissing, by simp, client.index, rfl, h.index.symm⟩

theorem polledReader (h : ReadInv n { client with polled := some polled } streams sent polls)
    (hnum : ∀ k (e : ℕ × μ), (writtenIn sent)[k]? = some e → e.1 = k)
    (hbounded : ∀ i f, .write i f ∈ sent → i < n) :
    ReadInv n (client.polledReader n polled).1 streams sent (polls ++ (client.polledReader n polled).2) ∧
      ∀ registered, .pending registered ∈ (client.polledReader n polled).2 →
        Awake n sent client.msgId registered := by
  unfold Client.polledReader
  split
  · rename_i hall
    have hpolling := h.polling polled rfl
    refine ⟨⟨h.order, ?_, h.increasing, h.located, h.index, by simp⟩, ?_⟩
    · simpa [PollEvent.item?] using h.items
    · intro registered hmem
      obtain rfl := PollEvent.pending.inj (List.mem_singleton.mp hmem)
      have hreg : ∀ i, (i, true) ∈ polled → i ∈ (polled.filter Prod.snd).map Prod.fst := fun i hi =>
        List.mem_map.mpr ⟨(i, true), List.mem_filter.mpr ⟨hi, rfl⟩, rfl⟩
      constructor
      · intro i data hwrite
        rcases hpolling.mem hall (hbounded i _ hwrite) with hi | hi
        · exact hreg i hi
        · rcases h.located i _ data hwrite le_rfl with hcontains | hin
          · rw [SortedMap.contains, hpolling.missing] at hcontains
            cases hcontains
          · exact absurd hin (hpolling.skipped i hi).2
      · intro hnone i hi
        rcases hpolling.mem hall hi with hi | hi
        · exact hreg i hi
        · -- a later id came, so the one that is waited for was given to a stream
          have hget := List.getElem?_eq_getElem (hpolling.skipped i hi).1
          exact absurd (hnum _ _ hget) (hnone _ (List.getElem_mem _))
  · refine ⟨?_, by simp⟩
    rw [List.append_nil]
    exact h

/-- A reader takes a message. -/
theorem take_message {i msgId : ℕ} {data : μ} {stream : UniStream μ} (hi : i < n)
    (h : ReadInv n client streams sent polls)
    (hentries : entries (streams i).queue = (msgId, data) :: entries stream.queue) :
    InOrder ((writtenIn sent).map Prod.snd)
        ((msgId, data) :: transit n (Function.update streams i stream)) client.messages client.msgId ∧
      (∀ j, ((Function.update streams i stream) j).ids.Pairwise (· < ·)) ∧
      (∀ k ∈ stream.ids, msgId < k) ∧
      (∀ j k, k ∈ (streams j).ids → k = msgId ∨ k ∈ ((Function.update streams i stream) j).ids) ∧
      ∀ j k, k ∈ ((Function.update streams i stream) j).ids → k ∈ (streams j).ids := by
  have hids : (streams i).ids = msgId :: stream.ids := congrArg (List.map Prod.fst) hentries
  have hsorted := h.increasing i
  rw [hids, List.pairwise_cons] at hsorted
  refine ⟨h.order.perm ?_, fun j => ?_, hsorted.1, fun j k hk => ?_, fun j k hk => ?_⟩
  · refine flatMap_perm_cons List.nodup_range (List.mem_range.mpr hi) ?_ fun j hj => ?_
    · rw [Function.update_self, hentries]
    · rw [Function.update_of_ne hj]
  all_goals
    by_cases hj : j = i
    · subst hj
      rw [Function.update_self] at *
      first
        | exact hsorted.2
        | exact List.mem_cons.mp (hids ▸ hk)
        | exact hids ▸ List.mem_cons_of_mem _ hk
    · rw [Function.update_of_ne hj] at *
      first
        | exact h.increasing j
        | exact .inr hk
        | exact hk

theorem received (h : ReadInv n client streams sent polls)
    (hnum : ∀ k (e : ℕ × μ), (writtenIn sent)[k]? = some e → e.1 = k)
    (hbounded : ∀ i f, .write i f ∈ sent → i < n) (hi : client.index < n)
    (hpolled : client.polled = some polled) {stream : UniStream μ} {value : ReaderPoll μ}
    (hread : (streams client.index).read = (value, stream)) :
    ReadInv n (client.received n polled value).1 (Function.update streams client.index stream) sent
        (polls ++ (client.received n polled value).2) ∧
      ∀ registered, .pending registered ∈ (client.received n polled value).2 →
        Awake n sent client.msgId registered := by
  have hpolling := h.polling polled hpolled
  unfold UniStream.read at hread
  split at hread
  · rename_i msgId data arrived harrived
    cases hread
    have hentries : entries (streams client.index).queue =
        (msgId, data) :: entries { streams client.index with arrived }.queue := by
      simp [UniStream.queue, harrived]
    obtain ⟨horder, hincreasing, hlt, hkept, hsub⟩ := h.take_message hi hentries
    by_cases hid : client.msgId = msgId
    · subst hid
      obtain ⟨hget, horder⟩ := horder.takeTransit
      simp only [Client.received, if_true]
      refine ⟨⟨horder, h.items_snoc hnum hget, hincreasing, fun j k d hmem hle => ?_, by simp, by simp⟩,
        by simp⟩
      dsimp only at hle
      rcases h.located j k d hmem (by omega) with hcontains | hin
      · exact .inl hcontains
      · exact .inr ((hkept j k hin).resolve_left (by omega))
    · simp only [Client.received, if_neg hid]
      refine polledReader ⟨?_, h.items, hincreasing, fun j k d hmem hle => ?_, by simp, ?_⟩ hnum hbounded
      · exact horder.arrive (i := 0) rfl
      · rw [SortedMap.contains_insert]
        rcases h.located j k d hmem hle with hcontains | hin
        · simp [hcontains]
        · rcases hkept j k hin with rfl | hin
          · simp
          · exact .inr hin
      · rintro _ ⟨⟩
        obtain ⟨hle, hget⟩ := horder.mem_transit _ List.mem_cons_self
        obtain ⟨hlen, -⟩ := List.getElem?_eq_some_iff.mp hget
        rw [List.length_map] at hlen
        refine hpolling.snoc ?_ (fun j => hsub j _) fun _ => ⟨by omega, fun hin => ?_⟩
        · rw [SortedMap.get?_insert_of_ne _ _ hid]
          exact hpolling.missing
        · rw [Function.update_self] at hin
          have := hlt _ hin
          omega
  · rename_i error arrived harrived
    cases hread
    have hupdate := h.update (i := client.index) { streams client.index with arrived }
      (by simp [UniStream.queue, harrived])
    refine ⟨⟨hupdate.order, ?_, hupdate.increasing, hupdate.located, by simp [Client.received],
      by simp [Client.received]⟩, by simp [Client.received]⟩
    simpa [Client.received, PollEvent.item?] using h.items
  · split at hread
    · cases hread
      have hupdate := h.update (streams client.index) rfl
      refine ⟨⟨hupdate.order, ?_, hupdate.increasing, hupdate.located, by simp [Client.received],
        by simp [Client.received]⟩, by simp [Client.received]⟩
      simpa [Client.received, PollEvent.item?] using h.items
    · cases hread
      have hupdate := h.update (streams client.index) rfl
      refine polledReader ⟨hupdate.order, hupdate.items, hupdate.increasing, hupdate.located, by simp, ?_⟩
        hnum hbounded
      rintro _ ⟨⟩
      rw [Function.update_eq_self]
      exact hpolling.snoc hpolling.missing (fun _ => id) (by simp)

end ReadInv

end Poll

theorem Client.length_polledReader (n : ℕ) (client : Client μ) (polled : List (ℕ × Bool)) :
    (client.polledReader n polled).2.length ≤ 1 := by
  unfold Client.polledReader
  split <;> simp

/-- An iteration returns at most once. -/
theorem Client.length_received (n : ℕ) (client : Client μ) (polled : List (ℕ × Bool)) (value : ReaderPoll μ) :
    (client.received n polled value).2.length ≤ 1 := by
  cases value with
  | message msgId data =>
    simp only [Client.received]
    split
    · exact le_rfl
    · exact Client.length_polledReader ..
  | error e => exact le_rfl
  | finished => exact le_rfl
  | pending => exact Client.length_polledReader ..

/-! ### Runs -/

namespace Transport

variable {s s' : Transport μ} {tr out : List (Event μ)}

/-- A poll that returns `Pending` is woken when the message comes that is to be yielded next. -/
def NoLostWakeup (n : ℕ) (tr : List (Event μ)) (e : Event μ) : Prop :=
  ∀ registered, e = .polled (.pending registered) →
    Awake n (sentIn tr) (itemsIn (polledIn tr)).length registered

structure Inv (n : ℕ) (s : Transport μ) (tr : List (Event μ)) : Prop where
  sent : SendInv n s.server (sentIn tr)
  read : ReadInv n s.client s.streams (sentIn tr) (polledIn tr)
  awake : AtEach (NoLostWakeup n) tr

namespace Inv

theorem new (n : ℕ) : Inv n (.new μ n) [] where
  sent := .new n
  read := .new n
  awake := atEach_nil

theorem length_items (h : Inv n s tr) : (itemsIn (polledIn tr)).length = s.client.msgId := by
  have hle := h.read.order.le
  rw [List.length_map] at hle
  rw [h.read.items, List.length_take, Nat.min_eq_left hle]

/-- The polls of the client after a step of it. -/
theorem polled {client : Client μ} {streams : ℕ → UniStream μ} {polls : List (PollEvent μ)}
    (h : Inv n s tr) (hread : ReadInv n client streams (sentIn tr) (polledIn tr ++ polls))
    (hlen : polls.length ≤ 1)
    (hawake : ∀ registered, .pending registered ∈ polls → Awake n (sentIn tr) s.client.msgId registered) :
    Inv n { s with client, streams } (tr ++ polls.map .polled) := by
  refine ⟨by simpa using h.sent, by simpa using hread, atEach_append.mpr ⟨h.awake, ?_⟩⟩
  match polls, hlen with
  | [], _ => exact atEach_nil
  | [e], _ =>
    refine atEach_singleton.mpr ?_
    rintro registered ⟨⟩
    rw [List.append_nil, h.length_items]
    exact hawake registered (List.mem_singleton.mpr rfl)

theorem step {action : Action μ} (h : Inv n s tr)
    (hstep : Transport.step n maxBacklog s action = .ok (s', out)) : Inv n s' (tr ++ out) := by
  cases action with
  | server action =>
    simp only [Transport.step] at hstep
    split at hstep
    · cases hstep
    · rename_i server sent hserver
      cases hstep
      have hsent := h.sent.step hserver
      refine ⟨by simpa [Transport.send] using hsent, ?_, atEach_append.mpr ⟨h.awake, ?_⟩⟩
      · have hread := h.read.send (fun k e => hsent.getElem?_writtenIn) hsent.bounded
        simpa [Transport.send] using hread
      · rintro pre x post heq registered rfl
        have hmem : Event.polled (.pending registered) ∈ sent.map Event.sent := by
          rw [heq]
          simp
        simp at hmem
  | arrive i =>
    simp only [Transport.step] at hstep
    split at hstep
    · cases hstep
    · rename_i stream harrive
      cases hstep
      refine ⟨by simpa using h.sent, ?_, by simpa using h.awake⟩
      simpa using h.read.arrive harrive
  | pollNext =>
    simp only [Transport.step] at hstep
    split at hstep
    · cases hstep
    · rename_i client polls hpoll
      cases hstep
      have hread := h.read.pollNext (fun k e => h.sent.getElem?_writtenIn) hpoll
      unfold Client.pollNext at hpoll
      split at hpoll
      · cases hpoll
      · split at hpoll <;> cases hpoll
        · exact h.polled hread (by simp) (by simp)
        · exact h.polled hread (by simp) (by simp)
  | pollReader =>
    simp only [Transport.step] at hstep
    split at hstep
    · cases hstep
    · rename_i polled hpolled
      split at hstep
      · rename_i hi
        rcases hvalue : (s.streams s.client.index).read with ⟨value, stream⟩
        rw [hvalue] at hstep
        cases hstep
        obtain ⟨hread, hawake⟩ := h.read.received (fun k e => h.sent.getElem?_writtenIn) h.sent.bounded hi
          hpolled hvalue
        exact h.polled hread (s.client.length_received n polled value) hawake
      · cases hstep

end Inv

theorem inv_run {actions : List (Action μ)} (h : run (step n maxBacklog) (.new μ n) actions = .ok (s, tr)) :
    Inv n s tr :=
  run_induction (P := fun _ s tr => Inv n s tr) (.new n)
    (fun _ _ _ _ _ _ _ hinv hstep => hinv.step hstep) h

/-- **Ordered delivery.** The messages that come out are the first ones that the send loop has given to
streams, which are the first ones that it has accepted, with the ids `0`, `1`, `2` and so on. A poll that
returns `Pending` has its waker registered with the stream that the next of them was given to, or with all
streams. -/
theorem ordered_delivery {actions : List (Action μ)}
    (h : run (step n maxBacklog) (.new μ n) actions = .ok (s, tr)) :
    itemsIn (polledIn tr) <+: writtenIn (sentIn tr) ∧
      writtenIn (sentIn tr) <+: number 0 (acceptedIn (sentIn tr)) ∧
      AtEach (NoLostWakeup n) tr := by
  have hinv := inv_run h
  refine ⟨?_, ?_, hinv.awake⟩
  · rw [hinv.read.items]
    exact List.take_prefix ..
  · rw [← hinv.sent.numbered]
    exact List.prefix_append ..

/-- Two streams. The second message arrives first and is held back; the poll returns `Pending` and has its
waker registered with the stream of the first message only. -/
theorem ordered_delivery_heldBack : ∃ s tr,
    run (step 2 8) (.new ℕ 2) [.server (.message 7), .server (.message 8), .arrive 1, .pollNext, .pollReader,
      .pollReader, .arrive 0, .pollNext, .pollReader, .pollNext] = .ok (s, tr) ∧
    polledIn tr = [.pending [0], .item 0 7, .item 1 8] ∧
    (itemsIn (polledIn tr) <+: writtenIn (sentIn tr) ∧
      writtenIn (sentIn tr) <+: number 0 (acceptedIn (sentIn tr)) ∧ AtEach (NoLostWakeup 2) tr) := by
  obtain ⟨s, tr, h, hpolled⟩ := exists_of_returns
    (p := fun _ tr => decide (polledIn tr = [.pending [0], .item 0 7, .item 1 8]))
    (x := run (step 2 8) (.new ℕ 2) [.server (.message 7), .server (.message 8), .arrive 1, .pollNext,
      .pollReader, .pollReader, .arrive 0, .pollNext, .pollReader, .pollNext]) (by decide +kernel)
  exact ⟨s, tr, h, of_decide_eq_true hpolled, ordered_delivery h⟩

end Transport

end Richat.Quic
