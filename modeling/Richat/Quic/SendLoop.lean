import Richat.Channel.Receiver
import Richat.Quic.OrderedDelivery

/-!
# The send loop and the request it serves

The client chooses the number of streams and how far the ids that are being written may be apart. The loop
waits in `select!`, which panics when all its branches are disabled: when the loop holds a message and no
task writes. `TaskInv` ties the ids that are being written to the tasks, so a message that is held waits for
a stream or for an id, and both come from a task. A `max_backlog` of zero lets no message go.
-/

namespace Richat.Quic

open Lib

/-! ### The request -/

structure QuicSubscribeRequest (φ : Type*) where
  xToken : Option Bytes
  recvStreams : UInt32
  maxBacklog : Option UInt32
  replayFromSlot : Option Slot
  filter : Option φ

inductive QuicSubscribeResponseError where
  | zeroRecvStreams
  | exceedRecvStreams
  | notInitialized
  | slotNotAvailable
  | requestSizeTooLarge
  | xTokenRequired
  | xTokenInvalid
  deriving DecidableEq

structure QuicSubscribeResponse where
  error : Option QuicSubscribeResponseError := none
  maxRecvStreams : Option UInt32 := none
  firstAvailableSlot : Option Slot := none
  version : String
  deriving DecidableEq

/-- The errors that `handle_request` returns after the stream of the request is accepted. -/
inductive ConnectionError where
  | quinnReadExact
  | prost
  deriving DecidableEq

/-- The access token of a request is checked when the server has tokens. -/
def verifyXToken (xTokens : List Bytes) (xToken : Option Bytes) : Option QuicSubscribeResponseError :=
  if xTokens.isEmpty then none
  else
    match xToken with
    | some xToken => if xToken ∈ xTokens then none else some .xTokenInvalid
    | none => some .xTokenRequired

/-- `QuicServer::handle_request` for a client that announces `size` bytes and sends `recv`. -/
def handleRequest {φ ρ : Type*} (decode : Bytes → Option (QuicSubscribeRequest φ))
    (subscribe : Option Slot → Option φ → Except SubscribeError ρ) (maxRecvStreams : UInt32)
    (maxRequestSize : UInt64) (xTokens : List Bytes) (version : String) (size : UInt64) (recv : Bytes) :
    Except ConnectionError (QuicSubscribeResponse × Option (UInt32 × UInt64 × ρ)) :=
  if maxRequestSize < size then .ok ({ error := some .requestSizeTooLarge, version }, none)
  else if recv.length < size.toNat then .error .quinnReadExact
  else
    match decode (recv.take size.toNat) with
    | none => .error .prost
    | some request =>
      match verifyXToken xTokens request.xToken with
      | some error => .ok ({ error := some error, version }, none)
      | none =>
        if request.recvStreams = 0 ∨ maxRecvStreams < request.recvStreams then
          .ok
            ({ error := some (if request.recvStreams = 0 then .zeroRecvStreams else .exceedRecvStreams)
               maxRecvStreams := some maxRecvStreams
               version }, none)
        else
          match subscribe request.replayFromSlot request.filter with
          | .ok rx =>
            .ok ({ version }, some (request.recvStreams,
              (request.maxBacklog.map UInt32.toUInt64).getD (UInt64.ofNat (2 ^ 64 - 1)), rx))
          | .error .notInitialized => .ok ({ error := some .notInitialized, version }, none)
          | .error (.slotNotAvailable firstAvailable) =>
            .ok ({ error := some .slotNotAvailable, firstAvailableSlot := some firstAvailable, version }, none)

section Request

variable {φ ρ : Type*} {decode : Bytes → Option (QuicSubscribeRequest φ)}
  {subscribe : Option Slot → Option φ → Except SubscribeError ρ} {maxRecvStreams recvStreams : UInt32}
  {maxRequestSize maxBacklog size : UInt64} {xTokens : List Bytes} {version : String} {recv : Bytes}
  {request : QuicSubscribeRequest φ} {response : QuicSubscribeResponse} {rx : ρ}

/-- What the send loop of an accepted request is given. -/
theorem handleRequest_accepted (hdecode : decode (recv.take size.toNat) = some request)
    (haccept : handleRequest decode subscribe maxRecvStreams maxRequestSize xTokens version size recv =
      .ok (response, some (recvStreams, maxBacklog, rx))) :
    recvStreams ≠ 0 ∧ recvStreams ≤ maxRecvStreams ∧
      maxBacklog = (request.maxBacklog.map UInt32.toUInt64).getD (UInt64.ofNat (2 ^ 64 - 1)) := by
  simp only [handleRequest, hdecode] at haccept
  split at haccept
  · cases haccept
  split at haccept
  · cases haccept
  split at haccept
  · cases haccept
  split at haccept
  · cases haccept
  rename_i hstreams
  obtain ⟨hzero, hexceed⟩ := not_or.mp hstreams
  split at haccept <;> cases haccept
  exact ⟨hzero, UInt32.not_lt.mp hexceed, rfl⟩

/-- Only a client that asks for it gets a backlog of zero. -/
theorem toNat_maxBacklog_eq_zero :
    ((request.maxBacklog.map UInt32.toUInt64).getD (UInt64.ofNat (2 ^ 64 - 1))).toNat = 0 ↔
      request.maxBacklog = some 0 := by
  cases request.maxBacklog with
  | none => decide
  | some maxBacklog =>
    rw [Option.map_some, Option.getD_some, UInt32.toNat_toUInt64, Option.some.injEq]
    exact UInt32.toNat_inj (b := 0)

end Request

/-! ### The tasks -/

section

variable {μ : Type*} {n maxBacklog : ℕ}

namespace Server

/-- The tasks write the ids of `msgIds`; after the source has failed also the close frame, which has the next
id. -/
structure TaskInv (s : Server μ) : Prop where
  nodup : (s.set.map Prod.fst).Nodup
  msgIds : ∀ msgId, s.msgIds.contains msgId ↔ msgId < s.msgId ∧ msgId ∈ s.set.map Prod.fst
  ids : ∀ msgId ∈ s.set.map Prod.fst, msgId < s.msgId ∨ msgId = s.msgId ∧ s.sourceOpen = false
  closed : s.sourceOpen = false → s.nextMessage = none

/-- A message that the loop holds when it waits has no stream, or is too far from the oldest id. -/
def Waiting (maxBacklog : ℕ) (s : Server μ) : Prop :=
  s.nextMessage ≠ none → s.streams = [] ∨ maxBacklog ≤ s.msgId - s.msgIds.firstKey?.getD s.msgId

theorem join_frame {s s' : Server μ} {task : ℕ} (hjoin : s.join task = some s') :
    s'.running = s.running ∧ s'.sourceOpen = s.sourceOpen ∧ s'.nextMessage = s.nextMessage := by
  unfold Server.join at hjoin
  split at hjoin <;> cases hjoin
  exact ⟨rfl, rfl, rfl⟩

theorem running_sendClose {s s' : Server μ} {error : RecvError} {out : List (SendEvent μ)}
    (hclose : s.sendClose error = some (s', out)) : s'.running = s.running := by
  unfold Server.sendClose at hclose
  split at hclose <;> cases hclose
  rfl

namespace TaskInv

variable {s s' : Server μ} {out : List (SendEvent μ)}

theorem new (n : ℕ) : (Server.new μ n).TaskInv where
  nodup := by simp [Server.new]
  msgIds := by simp [Server.new]
  ids := by simp [Server.new]
  closed := by simp [Server.new]

/-- While the source is open all tasks write messages. -/
theorem lt (h : s.TaskInv) (hopen : s.sourceOpen) {msgId : ℕ} (hmem : msgId ∈ s.set.map Prod.fst) :
    msgId < s.msgId :=
  (h.ids msgId hmem).resolve_right fun hclose => by simp [hopen] at hclose

theorem sourceOpen {data : μ} (h : s.TaskInv) (hnext : s.nextMessage = some data) : s.sourceOpen := by
  by_contra hclosed
  rw [h.closed (Bool.eq_false_of_not_eq_true hclosed)] at hnext
  cases hnext

theorem spawn (h : s.TaskInv) (hopen : s.sourceOpen) (stream : ℕ) :
    ((s.set ++ [(s.msgId, stream)]).map Prod.fst).Nodup := by
  rw [List.map_append, List.map_singleton, List.nodup_append]
  refine ⟨h.nodup, List.nodup_singleton _, ?_⟩
  rintro a ha b hb rfl
  obtain rfl := List.mem_singleton.mp hb
  exact lt_irrefl _ (h.lt hopen ha)

theorem join {task : ℕ} (h : s.TaskInv) (hjoin : s.join task = some s') : s'.TaskInv := by
  unfold Server.join at hjoin
  split at hjoin
  · cases hjoin
  · rename_i msgId stream hget
    cases hjoin
    obtain ⟨hlt, hget⟩ := List.getElem?_eq_some_iff.mp hget
    have hperm : (msgId :: (s.set.eraseIdx task).map Prod.fst).Perm (s.set.map Prod.fst) := by
      have := (List.getElem_cons_eraseIdx_perm hlt).map Prod.fst
      rwa [hget] at this
    obtain ⟨hnot, hnodup⟩ := List.nodup_cons.mp (hperm.nodup_iff.mpr h.nodup)
    refine ⟨hnodup, fun k => ?_, fun k hk => ?_, h.closed⟩
    · have hset := hperm.mem_iff (a := k)
      rw [List.mem_cons] at hset
      by_cases hk : k = msgId
      · subst hk
        simp [SortedMap.contains_erase, hnot]
      · rw [SortedMap.contains_erase]
        simp only [hk, false_or] at hset
        simpa [hk, hset] using h.msgIds k
    · exact h.ids k (hperm.mem_iff.mp (List.mem_cons_of_mem _ hk))

theorem sendClose {error : RecvError} (h : s.TaskInv) (hopen : s.sourceOpen) (hnext : s.nextMessage = none)
    (hclose : s.sendClose error = some (s', out)) : s'.TaskInv := by
  unfold Server.sendClose at hclose
  split at hclose
  · cases hclose
  · rename_i stream streams hstreams
    cases hclose
    refine ⟨h.spawn hopen stream, fun k => ?_, fun k hk => ?_, fun _ => hnext⟩
    · simp only [List.map_append, List.map_singleton, List.mem_append, List.mem_singleton]
      rw [h.msgIds k]
      refine and_congr_right fun hk => ⟨.inl, fun hmem => hmem.resolve_right hk.ne⟩
    · simp only [List.map_append, List.map_singleton, List.mem_append, List.mem_singleton] at hk
      rcases hk with hk | rfl
      · exact .inl (h.lt hopen hk)
      · exact .inr ⟨rfl, rfl⟩

theorem select {action : ServerAction μ} (h : s.TaskInv) (hselect : s.select action = some (s', out))
    (hrunning : s'.running) : s'.TaskInv := by
  cases action with
  | message data =>
    simp only [Server.select] at hselect
    split at hselect
    · rename_i hopen
      cases hselect
      exact ⟨h.nodup, h.msgIds, h.ids, fun hclosed => by simp [hopen.2] at hclosed⟩
    · cases hselect
  | failed error task =>
    simp only [Server.select] at hselect
    split at hselect
    · rename_i hopen
      have hnone := Option.isNone_iff_eq_none.mp hopen.1
      split at hselect
      · obtain ⟨s₁, hjoin, hclose⟩ := Option.bind_eq_some_iff.mp hselect
        obtain ⟨-, hopen₁, hnext₁⟩ := join_frame hjoin
        exact (h.join hjoin).sendClose (hopen₁ ▸ hopen.2) (hnext₁.trans hnone) hclose
      · exact h.sendClose hopen.2 hnone hselect
    · cases hselect
  | ended =>
    simp only [Server.select] at hselect
    split at hselect <;> cases hselect
    cases hrunning
  | joined task =>
    simp only [Server.select, Option.map_eq_some_iff, Prod.mk.injEq] at hselect
    obtain ⟨s₁, hjoin, rfl, -⟩ := hselect
    exact h.join hjoin

theorem loopHead (h : s.TaskInv) : (s.loopHead maxBacklog).1.TaskInv := by
  unfold Server.loopHead
  split
  · split
    · rename_i data stream streams hnext hstreams
      have hopen := h.sourceOpen hnext
      refine ⟨h.spawn hopen stream, fun k => ?_, fun k hk => ?_, fun _ => rfl⟩
      · simp only [List.map_append, List.map_singleton, List.mem_append, List.mem_singleton]
        by_cases hk : k = s.msgId
        · simp [hk]
        · have hlt : k ∈ s.set.map Prod.fst → k < s.msgId := h.lt hopen
          have hmem := h.msgIds k
          simp only [SortedMap.contains_insert, hk, decide_false, Bool.false_or, or_false]
          rw [hmem]
          exact ⟨fun hk => ⟨by omega, hk.2⟩, fun hk => ⟨hlt hk.2, hk.2⟩⟩
      · simp only [List.map_append, List.map_singleton, List.mem_append, List.mem_singleton] at hk
        rcases hk with hk | rfl
        · exact .inl (Nat.lt_succ_of_lt (h.lt hopen hk))
        · exact .inl (Nat.lt_succ_self _)
    · exact h
  · exact h

end TaskInv

/-- The loop goes on to wait when it cannot give out the message that it holds. -/
theorem waiting_loopHead (s : Server μ) : (s.loopHead maxBacklog).1.Waiting maxBacklog := by
  unfold Server.loopHead
  split
  · split
    · exact fun hnext => absurd rfl hnext
    · rename_i hnot
      intro hnext
      refine .inl ?_
      obtain ⟨data, hdata⟩ := Option.ne_none_iff_exists'.mp hnext
      rcases hstreams : s.streams with _ | ⟨stream, streams⟩
      · rfl
      · exact absurd hstreams (hnot data stream streams hdata)
  · rename_i hbacklog
    exact fun _ => .inr (not_lt.mp hbacklog)

/-- A message is given out while the oldest id that is being written is near. -/
theorem window_loopHead {s : Server μ} (h : s.TaskInv) {stream msgId : ℕ} {data : μ}
    (hwrite : .write stream (.message msgId data) ∈ (s.loopHead maxBacklog).2) :
    ∀ task ∈ (s.loopHead maxBacklog).1.set, msgId < task.1 + maxBacklog := by
  unfold Server.loopHead at hwrite ⊢
  split at hwrite
  · rename_i hbacklog
    split at hwrite
    · rename_i data' stream' streams hnext hstreams
      obtain ⟨-, hframe⟩ := SendEvent.write.inj (List.mem_singleton.mp hwrite)
      obtain ⟨rfl, -⟩ := Frame.message.inj hframe
      simp only [if_pos hbacklog]
      intro task htask
      rcases List.mem_append.mp htask with htask | htask
      · have hmem := List.mem_map_of_mem (f := Prod.fst) htask
        have hlt := h.lt (h.sourceOpen hnext) hmem
        have hkey := SortedMap.contains_iff.mp ((h.msgIds task.1).mpr ⟨hlt, hmem⟩)
        -- the task is in `msgIds`, so it is not older than the first one
        rcases hfirst : s.msgIds.firstKey? with _ | first
        · rw [SortedMap.firstKey?_eq_none.mp hfirst] at hkey
          cases hkey
        · have hle := (SortedMap.firstKey?_eq_some hfirst).2 task.1 hkey
          rw [hfirst, Option.getD_some] at hbacklog
          omega
      · obtain rfl := List.mem_singleton.mp htask
        dsimp only
        omega
    · cases hwrite
  · cases hwrite

theorem write_sendClose {s s' : Server μ} {error : RecvError} {out : List (SendEvent μ)}
    (hclose : s.sendClose error = some (s', out)) {stream msgId : ℕ} {data : μ} :
    .write stream (.message msgId data) ∉ out := by
  unfold Server.sendClose at hclose
  split at hclose <;> cases hclose
  simp

/-- The branches of `select!` write no message. -/
theorem write_select {s s' : Server μ} {action : ServerAction μ} {out : List (SendEvent μ)}
    (hselect : s.select action = some (s', out)) {stream msgId : ℕ} {data : μ} :
    .write stream (.message msgId data) ∉ out := by
  cases action with
  | message data' =>
    simp only [Server.select] at hselect
    split at hselect <;> cases hselect
    simp
  | failed error task =>
    simp only [Server.select] at hselect
    split at hselect
    · split at hselect
      · obtain ⟨s₁, -, hselect⟩ := Option.bind_eq_some_iff.mp hselect
        exact write_sendClose hselect
      · exact write_sendClose hselect
    · cases hselect
  | ended =>
    simp only [Server.select] at hselect
    split at hselect <;> cases hselect
    simp
  | joined task =>
    simp only [Server.select, Option.map_eq_some_iff, Prod.mk.injEq] at hselect
    obtain ⟨s₁, -, -, rfl⟩ := hselect
    simp

/-- Only the end of the source, which comes when no message is held, stops the loop. -/
theorem nextMessage_select {s s' : Server μ} {action : ServerAction μ} {out : List (SendEvent μ)}
    (hselect : s.select action = some (s', out)) (hrunning : s.running) (hstopped : ¬s'.running) :
    s'.nextMessage = none := by
  cases action with
  | message data' =>
    simp only [Server.select] at hselect
    split at hselect <;> cases hselect
    exact absurd hrunning hstopped
  | failed error task =>
    simp only [Server.select] at hselect
    split at hselect
    · split at hselect
      · obtain ⟨s₁, h₁, hselect⟩ := Option.bind_eq_some_iff.mp hselect
        exact absurd (((running_sendClose hselect).trans (join_frame h₁).1).trans hrunning) hstopped
      · exact absurd ((running_sendClose hselect).trans hrunning) hstopped
    · cases hselect
  | ended =>
    simp only [Server.select] at hselect
    split at hselect
    · rename_i hnone
      cases hselect
      exact Option.isNone_iff_eq_none.mp hnone
    · cases hselect
  | joined task =>
    simp only [Server.select, Option.map_eq_some_iff, Prod.mk.injEq] at hselect
    obtain ⟨s₁, h₁, rfl, -⟩ := hselect
    exact absurd ((join_frame h₁).1.trans hrunning) hstopped

end Server

end

/-! ### Safety -/

/-- What holds whenever the loop waits in `select!`, or has stopped. -/
structure SendSafe (recvStreams maxBacklog : ℕ) (s : Server Bytes) (sent : List (SendEvent Bytes)) : Prop where
  /-- a branch of `select!` is enabled -/
  select : s.running → s.nextMessage = none ∨ s.set ≠ []
  /-- the error path finds a task to wait for when there is no free stream -/
  expect : s.running → s.streams = [] → s.set ≠ []
  inFlight : s.set.length ≤ recvStreams
  /-- the message that is sent next is near to the oldest one that is not finished -/
  window : ∀ action s' out, s.step maxBacklog action = .ok (s', out) →
    ∀ stream msgId data, .write stream (.message msgId data) ∈ out →
      ∀ task ∈ s'.set, msgId < task.1 + maxBacklog
  /-- the messages taken from the source have the ids `0`, `1` and so on, and all but the one that the loop
  holds were given to streams -/
  assigned : writtenIn sent ++ s.nextMessage.toList.map (Prod.mk s.msgId) = number 0 (acceptedIn sent)
  streams : ∀ stream frame, .write stream frame ∈ sent → stream < recvStreams
  ended : ¬s.running → s.nextMessage = none

section

variable {n maxBacklog : ℕ} {s s' : Server Bytes} {sent : List (SendEvent Bytes)}

/-- The invariant of the loop. -/
structure LoopInv (n maxBacklog : ℕ) (s : Server Bytes) (sent : List (SendEvent Bytes)) : Prop where
  send : SendInv n s sent
  tasks : s.running → s.TaskInv
  waiting : s.Waiting maxBacklog
  ended : ¬s.running → s.nextMessage = none

namespace LoopInv

theorem new (n maxBacklog : ℕ) : LoopInv n maxBacklog (.new Bytes n) [] where
  send := .new n
  tasks _ := .new n
  waiting hnext := absurd rfl hnext
  ended _ := rfl

theorem running_loopHead (s : Server Bytes) : (s.loopHead maxBacklog).1.running = s.running := by
  unfold Server.loopHead
  split
  · split <;> rfl
  · rfl

theorem nextMessage_loopHead (hnext : s.nextMessage = none) : (s.loopHead maxBacklog).1 = s := by
  unfold Server.loopHead
  rw [hnext]
  split <;> rfl

theorem step {action : ServerAction Bytes} {out : List (SendEvent Bytes)} (h : LoopInv n maxBacklog s sent)
    (hstep : s.step maxBacklog action = .ok (s', out)) : LoopInv n maxBacklog s' (sent ++ out) := by
  have hsend := h.send.step hstep
  obtain ⟨hrunning, s₁, out₁, hselect, rfl, rfl⟩ := Server.step_eq_ok.mp hstep
  refine ⟨hsend, fun hrunning' => ?_, s₁.waiting_loopHead, fun hstopped => ?_⟩
  · rw [running_loopHead] at hrunning'
    exact ((h.tasks hrunning).select hselect hrunning').loopHead
  · rw [running_loopHead] at hstopped
    have hnext := Server.nextMessage_select hselect hrunning hstopped
    rw [nextMessage_loopHead hnext, hnext]

theorem run {actions : List (ServerAction Bytes)}
    (hrun : Lib.run (Server.step maxBacklog) (.new Bytes n) actions = .ok (s, sent)) :
    LoopInv n maxBacklog s sent :=
  run_induction (P := fun _ s sent => LoopInv n maxBacklog s sent) (.new n maxBacklog)
    (fun _ _ _ _ _ _ _ hinv hstep => hinv.step hstep) hrun

theorem length_streams (h : LoopInv n maxBacklog s sent) :
    s.streams.length + s.set.length = if s.running then n else 0 := by
  have hlen := h.send.streams.length_eq
  rw [List.length_append, List.length_map] at hlen
  rw [hlen]
  split
  · exact List.length_range
  · rfl

theorem set_ne_nil (h : LoopInv n maxBacklog s sent) (hn : 0 < n) (hrunning : s.running)
    (hstreams : s.streams = []) : s.set ≠ [] := by
  have hlen := h.length_streams
  rw [if_pos hrunning, hstreams, List.length_nil, Nat.zero_add] at hlen
  exact List.ne_nil_of_length_pos (hlen ▸ hn)

/-- The ids that a message waits for are being written. -/
theorem select (h : LoopInv n maxBacklog s sent) (hn : 0 < n) (hbacklog : 0 < maxBacklog)
    (hrunning : s.running) : s.nextMessage = none ∨ s.set ≠ [] := by
  refine or_iff_not_imp_left.mpr fun hnext => ?_
  rcases h.waiting hnext with hstreams | hfar
  · exact h.set_ne_nil hn hrunning hstreams
  · rcases hfirst : s.msgIds.firstKey? with _ | first
    · rw [hfirst, Option.getD_none] at hfar
      omega
    · have hkey := SortedMap.contains_iff.mpr (SortedMap.firstKey?_eq_some hfirst).1
      have hmem := (((h.tasks hrunning).msgIds first).mp hkey).2
      rintro hset
      rw [hset] at hmem
      cases hmem

theorem window {action : ServerAction Bytes} {out : List (SendEvent Bytes)} (h : LoopInv n maxBacklog s sent)
    (hstep : s.step maxBacklog action = .ok (s', out)) {stream msgId : ℕ} {data : Bytes}
    (hwrite : .write stream (.message msgId data) ∈ out) : ∀ task ∈ s'.set, msgId < task.1 + maxBacklog := by
  obtain ⟨hrunning, s₁, out₁, hselect, rfl, rfl⟩ := Server.step_eq_ok.mp hstep
  have hwrite' := (List.mem_append.mp hwrite).resolve_left (Server.write_select hselect)
  by_cases hrunning₁ : s₁.running
  · exact Server.window_loopHead ((h.tasks hrunning).select hselect hrunning₁) hwrite'
  · -- the loop has stopped and gives out nothing
    have hnext := Server.nextMessage_select hselect hrunning hrunning₁
    unfold Server.loopHead at hwrite'
    rw [hnext] at hwrite'
    split at hwrite' <;> cases hwrite'

theorem safe (h : LoopInv n maxBacklog s sent) (hn : 0 < n) (hbacklog : 0 < maxBacklog) :
    SendSafe n maxBacklog s sent where
  select := h.select hn hbacklog
  expect := h.set_ne_nil hn
  inFlight := by
    have hlen := h.length_streams
    split at hlen <;> omega
  window _ _ _ hstep _ _ _ hwrite := h.window hstep hwrite
  assigned := h.send.numbered
  streams := h.send.bounded
  ended := h.ended

end LoopInv

end

section Request

variable {φ ρ : Type*} {decode : Bytes → Option (QuicSubscribeRequest φ)}
  {subscribe : Option Slot → Option φ → Except SubscribeError ρ} {maxRecvStreams recvStreams : UInt32}
  {maxRequestSize maxBacklog size : UInt64} {xTokens : List Bytes} {version : String} {recv : Bytes}
  {request : QuicSubscribeRequest φ} {response : QuicSubscribeResponse} {rx : ρ}

/-- A message with a backlog of zero: it is held, and no task writes. -/
theorem step_message_zero (n : ℕ) (data : Bytes) :
    run (Server.step 0) (.new Bytes n) [.message data] =
      .ok ({ Server.new Bytes n with nextMessage := some data }, [.accepted data]) := rfl

/-- **Safety of the send loop.** The loop of an accepted request is safe in every state, exactly when the
client did not ask for a backlog of zero. -/
theorem send_loop_safe_iff (hdecode : decode (recv.take size.toNat) = some request)
    (haccept : handleRequest decode subscribe maxRecvStreams maxRequestSize xTokens version size recv =
      .ok (response, some (recvStreams, maxBacklog, rx))) :
    (∀ actions s sent, run (Server.step maxBacklog.toNat) (.new Bytes recvStreams.toNat) actions =
      .ok (s, sent) → SendSafe recvStreams.toNat maxBacklog.toNat s sent) ↔ request.maxBacklog ≠ some 0 := by
  obtain ⟨hstreams, -, hbacklog⟩ := handleRequest_accepted hdecode haccept
  have hzero : maxBacklog.toNat = 0 ↔ request.maxBacklog = some 0 := by
    rw [hbacklog]
    exact toNat_maxBacklog_eq_zero
  constructor
  · intro hsafe hrequest
    rw [hzero.mpr hrequest] at hsafe
    rcases (hsafe _ _ _ (step_message_zero _ [])).select rfl with hnext | hset
    · cases hnext
    · exact hset rfl
  · intro hrequest actions s sent hrun
    have hn : 0 < recvStreams.toNat :=
      Nat.pos_of_ne_zero fun h => hstreams (UInt32.toNat_inj.mp h)
    exact (LoopInv.run hrun).safe hn (Nat.pos_of_ne_zero (mt hzero.mp hrequest))

end Request

/-- What a request with the two limits only, each in one byte, decodes to. -/
def decodeLimits : Bytes → Option (QuicSubscribeRequest Unit)
  | [0x10, recvStreams, 0x18, maxBacklog] =>
    some
      { xToken := none
        recvStreams := recvStreams.toUInt32
        maxBacklog := some maxBacklog.toUInt32
        replayFromSlot := none
        filter := none }
  | _ => none

/-- The answer of a server with no tokens and at most 16 streams. -/
def handleLimits (recv : Bytes) :
    Except ConnectionError (QuicSubscribeResponse × Option (UInt32 × UInt64 × Unit)) :=
  handleRequest decodeLimits (fun _ _ => .ok ()) 16 1024 [] "" 4 recv

/-- Two streams and a backlog of one. -/
theorem send_loop_safe_iff_one :
    handleLimits [0x10, 2, 0x18, 1] = .ok ({ version := "" }, some (2, 1, ())) ∧
      ((∀ actions s sent, run (Server.step (1 : UInt64).toNat) (.new Bytes (2 : UInt32).toNat) actions =
        .ok (s, sent) → SendSafe (2 : UInt32).toNat (1 : UInt64).toNat s sent) ↔
          (some 1 : Option UInt32) ≠ some 0) :=
  have hdecode : decodeLimits (List.take (UInt64.toNat 4) [0x10, 2, 0x18, 1]) =
      some ⟨none, 2, some 1, none, none⟩ := by rfl
  have haccept : handleLimits [0x10, 2, 0x18, 1] = .ok ({ version := "" }, some (2, 1, ())) := by rfl
  ⟨haccept, send_loop_safe_iff hdecode haccept⟩

/-- A client that asks for a backlog of zero is accepted. After the first message all branches of `select!`
are disabled. -/
theorem send_loop_disabled :
    handleLimits [0x10, 2, 0x18, 0] = .ok ({ version := "" }, some (2, 0, ())) ∧
      ∃ s sent, run (Server.step 0) (.new Bytes 2) [.message [7]] = .ok (s, sent) ∧
        s.running ∧ s.nextMessage ≠ none ∧ s.set = [] ∧ ¬SendSafe 2 0 s sent := by
  refine ⟨by rfl, _, _, step_message_zero 2 [7], rfl, by simp, rfl, fun hsafe => ?_⟩
  rcases hsafe.select rfl with hnext | hset
  · cases hnext
  · exact hset rfl

end Richat.Quic
