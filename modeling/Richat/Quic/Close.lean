import Richat.Quic.OrderedDelivery

/-!
# The close of a QUIC subscription

The error of the source goes out on one stream and the end of every stream is read on its own, and the
client takes the first that it reads as the end of the subscription. With one stream that is the last thing
on it. With more, another stream may still have messages: `exists_losing` reads one of the streams to its
end while the first message is on another.
-/

namespace Richat.Quic

open Lib

variable {μ : Type*} {n maxBacklog : ℕ}

/-- The error of the client that means the error of the source. -/
def ReceiveError.ofRecvError : RecvError → ReceiveError
  | .lagged => .lagged
  | .closed => .closed

theorem ReceiveError.ofClose_closeError (error : RecvError) :
    ReceiveError.ofClose (closeError error) = .ofRecvError error := by
  cases error <;> rfl

namespace PollEvent

/-- The client yields nothing more. -/
def isTerminal : PollEvent μ → Bool
  | error _ | finished => true
  | item .. | pending _ => false

end PollEvent

/-- When the client fails or ends it has yielded all messages; it fails with the error of the source, and
ends if there is none. -/
def Drained (tr : List (Event μ)) : Prop :=
  ∀ pre x post, tr = pre ++ .polled x :: post → x.isTerminal →
    (itemsIn (polledIn pre)).map Prod.snd = acceptedIn (sentIn tr) ∧
      (∀ e, x = .error e → ∃ error, .failed error ∈ sentIn tr ∧ e = .ofRecvError error) ∧
      (x = .finished → ∀ error, .failed error ∉ sentIn tr)

/-! ### What the send loop does -/

/-- One branch of the send loop, or its head. -/
inductive SendStep (s : Server μ) : Server μ → List (SendEvent μ) → Prop where
  | quiet {s'} (next : s'.nextMessage = s.nextMessage) (source : s'.sourceOpen = s.sourceOpen)
    (running : s'.running = s.running) : SendStep s s' []
  | accepted {s'} (data : μ) (isOpen : s.sourceOpen) (isRunning : s.running) (next : s'.nextMessage = some data)
    (source : s'.sourceOpen = true) (running : s'.running = true) : SendStep s s' [.accepted data]
  | write {s'} (i : ℕ) (data : μ) (waiting : s.nextMessage = some data) (next : s'.nextMessage = none)
    (source : s'.sourceOpen = s.sourceOpen) (running : s'.running = s.running) :
    SendStep s s' [.write i (.message s.msgId data)]
  | failed {s'} (i : ℕ) (error : RecvError) (isOpen : s.sourceOpen) (isRunning : s.running)
    (idle : s.nextMessage = none) (next : s'.nextMessage = none) (source : s'.sourceOpen = false) (running : s'.running = s.running) :
    SendStep s s' [.failed error, .write i (.close (closeError error))]
  | ended {s'} (idle : s.nextMessage = none) (next : s'.nextMessage = none)
    (source : s'.sourceOpen = s.sourceOpen) (running : s'.running = false) :
    SendStep s s' ((s.set.map Prod.snd ++ s.streams).map .finish)

namespace Server

variable {s s' : Server μ} {out : List (SendEvent μ)}

theorem loopHead_cases (s : Server μ) (maxBacklog : ℕ) :
    SendStep s (s.loopHead maxBacklog).1 (s.loopHead maxBacklog).2 := by
  unfold loopHead
  split
  · split
    · rename_i data stream streams hnext hstreams
      exact .write stream data hnext rfl rfl rfl
    · exact .quiet rfl rfl rfl
  · exact .quiet rfl rfl rfl

theorem join_cases {task : ℕ} (h : s.join task = some s') :
    s'.nextMessage = s.nextMessage ∧ s'.sourceOpen = s.sourceOpen ∧ s'.running = s.running := by
  unfold join at h
  split at h <;> cases h
  exact ⟨rfl, rfl, rfl⟩

theorem sendClose_cases {error : RecvError} (h : s.sendClose error = some (s', out)) :
    s'.nextMessage = s.nextMessage ∧ s'.sourceOpen = false ∧ s'.running = s.running ∧
      ∃ i, out = [.failed error, .write i (.close (closeError error))] := by
  unfold sendClose at h
  split at h
  · cases h
  · rename_i stream streams hstreams
    cases h
    exact ⟨rfl, rfl, rfl, stream, rfl⟩

theorem select_cases {action : ServerAction μ} (hrun : s.running) (h : s.select action = some (s', out)) :
    SendStep s s' out := by
  cases action with
  | message data =>
    simp only [select] at h
    split at h
    · rename_i hnext
      cases h
      exact .accepted data hnext.2 hrun rfl hnext.2 hrun
    · cases h
  | failed error task =>
    simp only [select] at h
    split at h
    · rename_i hnext
      have hnone := Option.isNone_iff_eq_none.mp hnext.1
      split at h
      · obtain ⟨s₁, hjoin, hclose⟩ := Option.bind_eq_some_iff.mp h
        obtain ⟨hn₁, -, hr₁⟩ := join_cases hjoin
        obtain ⟨hn, hs, hr, i, rfl⟩ := sendClose_cases hclose
        exact .failed i error hnext.2 hrun hnone (by rw [hn, hn₁, hnone]) hs (hr.trans hr₁)
      · obtain ⟨hn, hs, hr, i, rfl⟩ := sendClose_cases h
        exact .failed i error hnext.2 hrun hnone (hn.trans hnone) hs hr
    · cases h
  | ended =>
    simp only [select] at h
    split at h
    · rename_i hnext
      cases h
      have hnone := Option.isNone_iff_eq_none.mp hnext
      exact .ended hnone hnone rfl rfl
    · cases h
  | joined task =>
    simp only [select, Option.map_eq_some_iff, Prod.mk.injEq] at h
    obtain ⟨s₁, hjoin, rfl, rfl⟩ := h
    obtain ⟨hn, hs, hr⟩ := join_cases hjoin
    exact .quiet hn hs hr

end Server

/-- After the source has failed nothing is accepted, and the loop has nothing to send when it ends. -/
structure Stopped (s : Server μ) : Prop where
  failed : s.sourceOpen = false → s.nextMessage = none
  ended : s.running = false → s.nextMessage = none

theorem Stopped.step {s s' : Server μ} {out : List (SendEvent μ)} (h : Stopped s)
    (hstep : SendStep s s' out) : Stopped s' := by
  cases hstep with
  | quiet next source running =>
    refine ⟨fun hsource => ?_, fun hrunning => ?_⟩
    · exact next.trans (h.failed (source ▸ hsource))
    · exact next.trans (h.ended (running ▸ hrunning))
  | accepted data isOpen isRunning next source running => exact ⟨by simp [source], by simp [running]⟩
  | write i data waiting next source running => exact ⟨fun _ => next, fun _ => next⟩
  | failed i error isOpen isRunning idle next source running => exact ⟨fun _ => next, fun _ => next⟩
  | ended idle next source running => exact ⟨fun _ => next, fun _ => next⟩

/-- The send loop reads nothing, and its last steps end the streams. -/
theorem foldl_apply (out : List (SendEvent μ)) (streams : ℕ → UniStream μ) (i : ℕ) :
    (out.foldl SendEvent.apply streams i).arrived = (streams i).arrived ∧
      (out.foldl SendEvent.apply streams i).ended = (streams i).ended ∧
      ((out.foldl SendEvent.apply streams i).finished = true ↔
        (streams i).finished = true ∨ .finish i ∈ out) := by
  induction out generalizing streams with
  | nil => simp
  | cons e out ih =>
    simp only [List.foldl_cons]
    obtain ⟨harrived, hended, hfinished⟩ := ih (e.apply streams)
    rw [harrived, hended, hfinished]
    cases e with
    | accepted data => simp [SendEvent.apply]
    | failed error => simp [SendEvent.apply]
    | write j frame =>
      by_cases hij : i = j
      · subst hij
        simp [SendEvent.apply, UniStream.write]
      · simp [SendEvent.apply, Function.update_of_ne hij]
    | finish j =>
      by_cases hij : i = j
      · subst hij
        simp [SendEvent.apply, UniStream.finish]
      · simp [SendEvent.apply, hij]

theorem inFlight_finish (l : List ℕ) (streams : ℕ → UniStream μ) (i : ℕ) :
    ((l.map SendEvent.finish).foldl SendEvent.apply streams i).inFlight = (streams i).inFlight := by
  induction l generalizing streams with
  | nil => rfl
  | cons j l ih =>
    rw [List.map_cons, List.foldl_cons, ih]
    by_cases hij : i = j
    · subst hij
      simp [SendEvent.apply, UniStream.finish]
    · simp [SendEvent.apply, hij]

/-! ### One stream -/

section Trace

variable {tr : List (Event μ)} {out : List (SendEvent μ)} {x : PollEvent μ}

theorem mem_polledIn : x ∈ polledIn tr ↔ .polled x ∈ tr := by
  constructor
  · intro h
    obtain ⟨e, he, hx⟩ := List.mem_filterMap.mp h
    cases e with
    | sent e => simp [Event.polled?] at hx
    | polled y =>
      obtain rfl : y = x := by simpa [Event.polled?] using hx
      exact he
  · intro h
    exact List.mem_filterMap.mpr ⟨_, h, rfl⟩

theorem drained_of_open (h : ∀ x ∈ polledIn tr, x.isTerminal = false) : Drained tr := by
  rintro pre x post rfl hterminal
  rw [h x (mem_polledIn.mpr (by simp))] at hterminal
  cases hterminal

/-- The send loop does nothing more than finish its streams. -/
theorem Drained.append (h : Drained tr) (haccepted : acceptedIn out = []) (hfailed : ∀ error, .failed error ∉ out) :
    Drained (tr ++ out.map .sent) := by
  intro pre x post heq hterminal
  rcases split_append heq with ⟨rest, hrest⟩ | ⟨l, -, hl⟩
  swap
  · have hmem : Event.polled x ∈ out.map Event.sent := by
      rw [hl]
      simp
    simp at hmem
  obtain ⟨hitems, herror, hfinished⟩ := h pre x rest hrest hterminal
  refine ⟨?_, fun e he => ?_, fun hx error => ?_⟩
  · simp [hitems, haccepted]
  · obtain ⟨error, hmem, rfl⟩ := herror e he
    exact ⟨error, by simp [hmem], rfl⟩
  · simp [hfinished hx error, hfailed error]

/-- The client fails or ends. -/
theorem drained_snoc (h : ∀ x ∈ polledIn tr, x.isTerminal = false)
    (hitems : (itemsIn (polledIn tr)).map Prod.snd = acceptedIn (sentIn tr))
    (herror : ∀ e, x = .error e → ∃ error, .failed error ∈ sentIn tr ∧ e = .ofRecvError error)
    (hfinished : x = .finished → ∀ error, .failed error ∉ sentIn tr) : Drained (tr ++ [.polled x]) := by
  intro pre y post heq hterminal
  have hsent : sentIn (tr ++ [.polled x]) = sentIn tr := by simp [sentIn, Event.sent?]
  rcases split_append heq with ⟨rest, rfl⟩ | ⟨l, rfl, hl⟩
  · rw [h y (mem_polledIn.mpr (by simp))] at hterminal
    cases hterminal
  · cases l with
    | nil =>
      obtain rfl := Event.polled.inj (List.cons.inj hl).1
      rw [hsent, List.append_nil]
      exact ⟨hitems, herror, hfinished⟩
    | cons z l => simp at hl

end Trace

/-- A client with one stream: nothing is held back, and a close frame is the last thing on the stream. -/
structure Single (s : Transport μ) (tr : List (Event μ)) : Prop where
  stopped : Stopped s.server
  empty : s.client.messages = .empty
  last : ∀ pre error post, (s.streams 0).queue = pre ++ .close error :: post →
    post = [] ∧ s.server.sourceOpen = false
  closes : ∀ error, .close error ∈ (s.streams 0).queue →
    ∃ e, .failed e ∈ sentIn tr ∧ error = closeError e
  failed : s.client.terminated = false → ∀ e, .failed e ∈ sentIn tr →
    .close (closeError e) ∈ (s.streams 0).queue
  finished : (s.streams 0).finished → s.server.running = false
  ended : (s.streams 0).ended → (s.streams 0).finished ∧ (s.streams 0).inFlight = []
  terminated : s.client.terminated → s.server.sourceOpen = false ∨ s.server.running = false
  polled : s.client.terminated → s.client.polled = none
  isOpen : s.client.terminated = false → ∀ x ∈ polledIn tr, x.isTerminal = false
  drained : Drained tr

namespace Single

variable {s s' : Transport μ} {tr out : List (Event μ)} {server : Server μ} {sent : List (SendEvent μ)}

theorem new : Single (.new μ n) [] where
  stopped := ⟨fun _ => rfl, fun _ => rfl⟩
  empty := rfl
  last pre error post h := by simp [Transport.new, UniStream.new, UniStream.queue] at h
  closes error h := by simp [Transport.new, UniStream.new, UniStream.queue] at h
  failed _ e h := by simp [sentIn] at h
  finished h := by simp [Transport.new, UniStream.new] at h
  ended h := by simp [Transport.new, UniStream.new] at h
  terminated h := by simp [Transport.new, Client.new] at h
  polled h := by simp [Transport.new, Client.new] at h
  isOpen _ x h := by simp [polledIn] at h
  drained := drained_of_open (by simp [polledIn])

/-- While the source is open there is no close frame. -/
theorem not_close (h : Single s tr) (hsource : s.server.sourceOpen) (error : ℤ) :
    .close error ∉ (s.streams 0).queue := by
  intro hmem
  obtain ⟨pre, post, hqueue⟩ := List.append_of_mem hmem
  rw [(h.last pre error post hqueue).2] at hsource
  cases hsource

theorem not_terminated (h : Single s tr) (hsource : s.server.sourceOpen) (hrunning : s.server.running) :
    s.client.terminated = false := by
  rw [← Bool.not_eq_true]
  intro hterminated
  rcases h.terminated hterminated with hclosed | hstopped
  · rw [hsource] at hclosed
    cases hclosed
  · rw [hrunning] at hstopped
    cases hstopped

/-- A branch that writes nothing. -/
theorem send_quiet (h : Single s tr) (hstopped : Stopped server)
    (hsource : server.sourceOpen = s.server.sourceOpen) (hrunning : server.running = s.server.running)
    (hstreams : sent.foldl SendEvent.apply s.streams = s.streams)
    (hfailed : ∀ e, .failed e ∈ sentIn (tr ++ sent.map .sent) ↔ .failed e ∈ sentIn tr)
    (hdrained : Drained (tr ++ sent.map .sent)) : Single (s.send server sent) (tr ++ sent.map .sent) where
  stopped := hstopped
  empty := h.empty
  last := by
    simp only [Transport.send, hstreams, hsource]
    exact h.last
  closes := by
    simp only [Transport.send, hstreams, hfailed]
    exact h.closes
  failed := by
    simp only [Transport.send, hstreams, hfailed]
    exact h.failed
  finished := by
    simp only [Transport.send, hstreams, hrunning]
    exact h.finished
  ended := by
    simp only [Transport.send, hstreams]
    exact h.ended
  terminated := by
    simp only [Transport.send, hsource, hrunning]
    exact h.terminated
  polled := h.polled
  isOpen := by simpa [Transport.send] using h.isOpen
  drained := hdrained

/-- A branch that writes a frame, the close frame if the source has failed. -/
theorem send_frame {frame : Frame μ} (h : Single s tr) (pre : List (SendEvent μ))
    (hsent : sent = pre ++ [.write 0 frame]) (hstopped : Stopped server)
    (hsource : s.server.sourceOpen) (hrunning : s.server.running)
    (hwrites : pre.foldl SendEvent.apply s.streams = s.streams)
    (hframe : (∀ error, frame ≠ .close error) ∧ (∀ e, .failed e ∉ pre) ∨
      ∃ e, frame = .close (closeError e) ∧ pre = [.failed e] ∧ server.sourceOpen = false) :
    Single (s.send server sent) (tr ++ sent.map .sent) := by
  subst hsent
  have hterminated := h.not_terminated hsource hrunning
  have hnone := h.not_close hsource
  have hstream : ((pre ++ [SendEvent.write 0 frame]).foldl SendEvent.apply s.streams) 0 = (s.streams 0).write frame := by
    rw [List.foldl_append, hwrites]
    simp [SendEvent.apply]
  have hqueue : ((s.streams 0).write frame).queue = (s.streams 0).queue ++ [frame] := by
    simp [UniStream.queue, UniStream.write]
  refine ⟨hstopped, h.empty, ?_, ?_, ?_, ?_, ?_, ?_, h.polled, ?_, ?_⟩
  · intro pre' error post heq
    simp only [Transport.send, hstream, hqueue] at heq ⊢
    rcases split_append heq with ⟨rest, hrest⟩ | ⟨l, rfl, hl⟩
    · exact absurd (hrest ▸ by simp) (hnone error)
    · cases l with
      | cons z l => simp at hl
      | nil =>
        obtain ⟨hclose, hpost⟩ := List.cons.inj hl
        rcases hframe with ⟨hmessage, -⟩ | ⟨e, -, -, hclosed⟩
        · exact absurd hclose (hmessage error)
        · exact ⟨hpost.symm, hclosed⟩
  · intro error hmem
    simp only [Transport.send, hstream, hqueue, List.mem_append, List.mem_singleton] at hmem
    rw [sentIn_append, sentIn_sent]
    rcases hmem with hmem | rfl
    · exact absurd hmem (hnone error)
    · rcases hframe with ⟨hmessage, -⟩ | ⟨e, hclose, rfl, -⟩
      · exact absurd rfl (hmessage error)
      · exact ⟨e, by simp, Frame.close.inj hclose⟩
  · intro _ e hmem
    simp only [Transport.send, hstream, hqueue, sentIn_append, sentIn_sent] at hmem ⊢
    rcases List.mem_append.mp hmem with hmem | hmem
    · exact absurd (h.failed hterminated e hmem) (hnone _)
    · rcases hframe with ⟨-, hfailed⟩ | ⟨e', hclose, rfl, -⟩
      · exact absurd (by simpa using hmem) (hfailed e)
      · obtain rfl : e = e' := by simpa using hmem
        simp [hclose]
  · intro hfinished
    simp only [Transport.send, hstream] at hfinished
    have hstop := h.finished hfinished
    rw [hrunning] at hstop
    cases hstop
  · intro hended
    simp only [Transport.send, hstream] at hended
    have hstop := h.finished (h.ended hended).1
    rw [hrunning] at hstop
    cases hstop
  · intro hterm
    rw [show (s.send server (pre ++ [SendEvent.write 0 frame])).client = s.client from rfl, hterminated] at hterm
    cases hterm
  · intro _
    rw [polledIn_append, polledIn_sent, List.append_nil]
    exact h.isOpen hterminated
  · refine drained_of_open ?_
    rw [polledIn_append, polledIn_sent, List.append_nil]
    exact h.isOpen hterminated

/-- The end of the loop. -/
theorem send_ended {l : List ℕ} (h : Single s tr) (hstopped : Stopped server)
    (hsource : server.sourceOpen = s.server.sourceOpen) (hrunning : server.running = false) :
    Single (s.send server (l.map .finish)) (tr ++ (l.map SendEvent.finish).map .sent) := by
  obtain ⟨harrived, hended, hfinished⟩ := foldl_apply (l.map .finish) s.streams 0
  have hflight := inFlight_finish l s.streams 0
  have hqueue : (((l.map SendEvent.finish).foldl SendEvent.apply s.streams) 0).queue = (s.streams 0).queue := by
    rw [UniStream.queue, hflight, harrived, UniStream.queue]
  have hfailed : ∀ e, .failed e ∈ sentIn (tr ++ (l.map SendEvent.finish).map .sent) ↔
      .failed e ∈ sentIn tr := by
    rw [sentIn_append, sentIn_sent]
    simp
  refine ⟨hstopped, h.empty, ?_, ?_, ?_, fun _ => hrunning, ?_, fun _ => .inr hrunning, h.polled, ?_, ?_⟩
  · simp only [Transport.send, hqueue, hsource]
    exact h.last
  · simp only [Transport.send, hqueue, hfailed]
    exact h.closes
  · simp only [Transport.send, hqueue, hfailed]
    exact h.failed
  · simp only [Transport.send, hended, hflight, hfinished]
    intro hend
    exact ⟨.inl (h.ended hend).1, (h.ended hend).2⟩
  · rw [polledIn_append, polledIn_sent, List.append_nil]
    exact h.isOpen
  · exact h.drained.append (acceptedIn_finish l) (by simp)

theorem sendStep (h : Single s tr) (hbounded : ∀ i f, .write i f ∈ sent → i < 1)
    (hstep : SendStep s.server server sent) : Single (s.send server sent) (tr ++ sent.map .sent) := by
  have hstopped := h.stopped.step hstep
  cases hstep with
  | quiet next source running =>
    refine h.send_quiet hstopped source running rfl (by simp) ?_
    simpa using h.drained
  | accepted data isOpen isRunning next source running =>
    refine h.send_quiet hstopped (source.trans isOpen.symm) (running.trans isRunning.symm) rfl ?_
      (drained_of_open ?_)
    · rw [sentIn_append, sentIn_sent]
      simp
    · rw [polledIn_append, polledIn_sent, List.append_nil]
      exact h.isOpen (h.not_terminated isOpen isRunning)
  | write i data waiting next source running =>
    obtain rfl : i = 0 := by have := hbounded i _ (List.mem_singleton.mpr rfl); omega
    refine h.send_frame [] rfl hstopped ?_ ?_ rfl (.inl ⟨by simp, by simp⟩)
    · by_contra hclosed
      rw [h.stopped.failed (by simpa using hclosed)] at waiting
      cases waiting
    · by_contra hended
      rw [h.stopped.ended (by simpa using hended)] at waiting
      cases waiting
  | failed i error isOpen isRunning idle next source running =>
    obtain rfl : i = 0 := by have := hbounded i _ (List.mem_cons_of_mem _ (List.mem_singleton.mpr rfl)); omega
    exact h.send_frame [.failed error] rfl hstopped isOpen isRunning rfl
      (.inr ⟨error, rfl, rfl, source⟩)
  | ended idle next source running => exact h.send_ended hstopped source running

theorem send_send {server₁ server₂ : Server μ} {out₁ out₂ : List (SendEvent μ)} :
    (s.send server₁ out₁).send server₂ out₂ = s.send server₂ (out₁ ++ out₂) := by
  simp [Transport.send]

theorem serverStep {action : ServerAction μ} (h : Single s tr) (hbounded : ∀ i f, .write i f ∈ sent → i < 1)
    (hstep : s.server.step maxBacklog action = .ok (server, sent)) :
    Single (s.send server sent) (tr ++ sent.map .sent) := by
  obtain ⟨hrun, s₁, out₁, hselect, rfl, rfl⟩ := Server.step_eq_ok.mp hstep
  have h₁ := h.sendStep (fun i f hi => hbounded i f (List.mem_append_left _ hi))
    (Server.select_cases hrun hselect)
  have h₂ := h₁.sendStep (fun i f hi => hbounded i f (List.mem_append_right _ hi))
    (s₁.loopHead_cases maxBacklog)
  rw [send_send] at h₂
  simpa using h₂

theorem arrive {i : ℕ} {stream : UniStream μ} (h : Single s tr) (harrive : (s.streams i).arrive = some stream) :
    Single { s with streams := Function.update s.streams i stream } tr := by
  by_cases hi : i = 0
  swap
  · have hstream : Function.update s.streams i stream 0 = s.streams 0 := Function.update_of_ne (Ne.symm hi) _ _
    refine ⟨h.stopped, h.empty, ?_, ?_, ?_, ?_, ?_, h.terminated, h.polled, h.isOpen, h.drained⟩
    all_goals
      simp only [hstream]
    exacts [h.last, h.closes, h.failed, h.finished, h.ended]
  subst hi
  have harrived : stream.queue = (s.streams 0).queue ∧ stream.finished = (s.streams 0).finished ∧
      (stream.ended → stream.finished ∧ stream.inFlight = []) := by
    unfold UniStream.arrive at harrive
    split at harrive
    · rename_i frame inFlight hflight
      cases harrive
      refine ⟨by simp [UniStream.queue, hflight], rfl, fun hended => ?_⟩
      rw [(h.ended hended).2] at hflight
      cases hflight
    · rename_i hflight
      split at harrive <;> cases harrive
      rename_i hfinished
      exact ⟨rfl, rfl, fun _ => ⟨hfinished.1, hflight⟩⟩
  obtain ⟨hqueue, hfinished, hended⟩ := harrived
  refine ⟨h.stopped, h.empty, ?_, ?_, ?_, ?_, ?_, h.terminated, h.polled, h.isOpen, h.drained⟩
  all_goals
    simp only [Function.update_self]
  · rw [hqueue]
    exact h.last
  · rw [hqueue]
    exact h.closes
  · rw [hqueue]
    exact h.failed
  · rw [hfinished]
    exact h.finished
  · exact hended

/-- What is left when the stream has nothing more: every message was yielded. -/
theorem all_yielded (h : Single s tr) (hinv : s.Inv 1 tr) (hids : (s.streams 0).ids = [])
    (hnext : s.server.nextMessage = none) :
    (itemsIn (polledIn tr)).map Prod.snd = acceptedIn (sentIn tr) := by
  have hall : s.client.msgId = (writtenIn (sentIn tr)).length := by
    have hle := hinv.read.order.le
    rw [List.length_map] at hle
    by_contra hne
    obtain ⟨i, data, hwrite⟩ := hinv.sent.exists_write (show s.client.msgId < _ by omega)
    obtain rfl : i = 0 := by have := hinv.sent.bounded i _ hwrite; omega
    rcases hinv.read.located 0 _ data hwrite le_rfl with hcontains | hin
    · simp [h.empty] at hcontains
    · simp [hids] at hin
  rw [hinv.read.items, hall, List.take_length, hinv.sent.writtenIn_eq hnext, map_snd_number]

/-- The first message of the stream is the next one. -/
theorem msgId_eq {msgId : ℕ} {data : μ} (h : Single s tr) (hinv : s.Inv 1 tr) (frames : List (Frame μ))
    (hentries : entries (s.streams 0).queue = (msgId, data) :: entries frames) :
    s.client.msgId = msgId := by
  have hids : (s.streams 0).ids = msgId :: (entries frames).map Prod.fst := congrArg (List.map Prod.fst) hentries
  have hsorted := hinv.read.increasing 0
  rw [hids, List.pairwise_cons] at hsorted
  obtain ⟨hle, hget⟩ := hinv.read.order.mem_transit (msgId, data)
    (List.mem_flatMap.mpr ⟨0, by simp, by simp [hentries]⟩)
  obtain ⟨hlt, -⟩ := List.getElem?_eq_some_iff.mp hget
  rw [List.length_map] at hlt
  obtain ⟨i, data', hwrite⟩ := hinv.sent.exists_write (show s.client.msgId < _ from hle.trans_lt hlt)
  obtain rfl : i = 0 := by have := hinv.sent.bounded i _ hwrite; omega
  rcases hinv.read.located 0 _ data' hwrite le_rfl with hcontains | hin
  · simp [h.empty] at hcontains
  · rw [hids] at hin
    rcases List.mem_cons.mp hin with heq | hin
    · exact heq
    · have := hsorted.1 _ hin
      omega

theorem pollNext {client : Client μ} {polls : List (PollEvent μ)} (h : Single s tr)
    (hpoll : s.client.pollNext = some (client, polls)) :
    Single { s with client } (tr ++ polls.map .polled) := by
  unfold Client.pollNext at hpoll
  split at hpoll
  · cases hpoll
  · rename_i hidle
    obtain ⟨hopen, -⟩ := not_or.mp hidle
    split at hpoll
    · rename_i data hdata
      simp [h.empty] at hdata
    · cases hpoll
      rw [List.map_nil, List.append_nil]
      exact ⟨h.stopped, h.empty, h.last, h.closes, h.failed, h.finished, h.ended, h.terminated,
        fun hterminated => absurd hterminated hopen, h.isOpen, h.drained⟩

/-- The client goes on: what is left on the stream is the end of what was there. -/
theorem goOn {client : Client μ} {stream : UniStream μ} {polls : List (PollEvent μ)} (h : Single s tr)
    (hterminated : s.client.terminated = false) (hopen : client.terminated = false)
    (hempty : client.messages = .empty) (frames : List (Frame μ))
    (hqueue : (s.streams 0).queue = frames ++ stream.queue) (hframes : ∀ error, .close error ∉ frames)
    (hfinished : stream.finished = (s.streams 0).finished)
    (hended : stream.ended = (s.streams 0).ended) (hflight : stream.inFlight = (s.streams 0).inFlight)
    (hpolls : ∀ x ∈ polls, x.isTerminal = false) :
    Single { s with client, streams := Function.update s.streams 0 stream } (tr ++ polls.map .polled) := by
  have hpolled : ∀ x ∈ polledIn (tr ++ polls.map .polled), x.isTerminal = false := by
    intro x hx
    rw [polledIn_append, polledIn_polled] at hx
    exact (List.mem_append.mp hx).elim (h.isOpen hterminated x) (hpolls x)
  have hsent : sentIn (tr ++ polls.map .polled) = sentIn tr := by
    rw [sentIn_append, sentIn_polled, List.append_nil]
  refine ⟨h.stopped, hempty, ?_, ?_, ?_, ?_, ?_, by simp [hopen], by simp [hopen], fun _ => hpolled,
    drained_of_open hpolled⟩
  all_goals
    simp only [Function.update_self, hsent]
  · intro pre error post heq
    exact h.last (frames ++ pre) error post (by rw [hqueue, heq, List.append_assoc])
  · intro error hmem
    exact h.closes error (by simp [hqueue, hmem])
  · intro _ e hmem
    have hin := h.failed hterminated e hmem
    rw [hqueue] at hin
    exact (List.mem_append.mp hin).resolve_left (hframes _)
  · rw [hfinished]
    exact h.finished
  · rw [hended, hfinished, hflight]
    exact h.ended

/-- The client fails or ends. -/
theorem terminate {x : PollEvent μ} {stream : UniStream μ} {index : ℕ} (h : Single s tr) (hinv : s.Inv 1 tr)
    (hterminated : s.client.terminated = false) (hids : (s.streams 0).ids = []) (hqueue : stream.queue = [])
    (hfinished : stream.finished = (s.streams 0).finished)
    (hended : stream.ended = (s.streams 0).ended) (hflight : stream.inFlight = (s.streams 0).inFlight)
    (hstop : s.server.sourceOpen = false ∨ s.server.running = false)
    (herror : ∀ e, x = .error e → ∃ error, .failed error ∈ sentIn tr ∧ e = .ofRecvError error)
    (hend : x = .finished → ∀ error, .failed error ∉ sentIn tr) :
    Single { s with
        client := { s.client with index, polled := none, terminated := true }
        streams := Function.update s.streams 0 stream }
      (tr ++ [.polled x]) := by
  have hnext : s.server.nextMessage = none := hstop.elim h.stopped.failed h.stopped.ended
  refine ⟨h.stopped, h.empty, ?_, ?_, by simp, ?_, ?_, fun _ => hstop, fun _ => rfl, by simp,
    drained_snoc (h.isOpen hterminated) (h.all_yielded hinv hids hnext) herror hend⟩
  all_goals
    simp only [Function.update_self]
  · simp [hqueue]
  · simp [hqueue]
  · rw [hfinished]
    exact h.finished
  · rw [hended, hfinished, hflight]
    exact h.ended

theorem pollReader (h : Single s tr) (hinv : s.Inv 1 tr)
    (hstep : Transport.step 1 maxBacklog s .pollReader = .ok (s', out)) : Single s' (tr ++ out) := by
  simp only [Transport.step] at hstep
  split at hstep
  · cases hstep
  · rename_i polled hpolled
    split at hstep
    swap
    · cases hstep
    rename_i hi
    have hzero : s.client.index = 0 := by omega
    have hterminated : s.client.terminated = false := by
      rw [← Bool.not_eq_true]
      intro hterminated
      rw [h.polled hterminated] at hpolled
      cases hpolled
    rw [hzero] at hstep
    unfold UniStream.read at hstep
    split at hstep
    · rename_i msgId data arrived harrived
      have hqueue : (s.streams 0).queue = [.message msgId data] ++ { s.streams 0 with arrived }.queue := by
        simp [UniStream.queue, harrived]
      obtain rfl := h.msgId_eq hinv { s.streams 0 with arrived }.queue (by rw [hqueue]; rfl)
      simp only [Client.received, if_true] at hstep
      cases hstep
      exact h.goOn hterminated hterminated h.empty _ hqueue (by simp) rfl rfl rfl
        (by simp [PollEvent.isTerminal])
    · rename_i error arrived harrived
      obtain ⟨hrest, hclosed⟩ := h.last [] error (arrived ++ (s.streams 0).inFlight)
        (by simp [UniStream.queue, harrived])
      cases hstep
      refine h.terminate hinv hterminated ?_ hrest rfl rfl rfl (.inl hclosed) ?_ (by simp)
      · simp only [UniStream.ids, UniStream.queue, harrived, List.cons_append, entries_close, hrest]
        rfl
      · rintro _ ⟨⟩
        obtain ⟨e, hmem, rfl⟩ := h.closes error (by simp [UniStream.queue, harrived])
        exact ⟨e, hmem, ReceiveError.ofClose_closeError e⟩
    · rename_i harrived
      split at hstep
      · rename_i hend
        obtain ⟨hfinished, hflight⟩ := h.ended hend
        have hqueue : (s.streams 0).queue = [] := by rw [UniStream.queue, harrived, hflight]; rfl
        cases hstep
        refine h.terminate hinv hterminated ?_ hqueue rfl rfl rfl (.inr (h.finished hfinished)) (by simp) ?_
        · rw [UniStream.ids, hqueue]
          rfl
        · intro _ error hmem
          have hin := h.failed hterminated error hmem
          rw [hqueue] at hin
          cases hin
      · simp only [Client.received, Client.polledReader] at hstep
        split at hstep <;> cases hstep
        all_goals
          exact h.goOn hterminated hterminated h.empty [] rfl (by simp) rfl rfl rfl
            (by simp [PollEvent.isTerminal])

theorem step {action : Action μ} (h : Single s tr) (hinv : s.Inv 1 tr)
    (hstep : Transport.step 1 maxBacklog s action = .ok (s', out)) : Single s' (tr ++ out) := by
  cases action with
  | server action =>
    simp only [Transport.step] at hstep
    split at hstep
    · cases hstep
    · rename_i server sent hserver
      cases hstep
      refine h.serverStep (fun i f hi => ?_) hserver
      exact (hinv.sent.step hserver).bounded i f (List.mem_append_right _ hi)
  | arrive i =>
    simp only [Transport.step] at hstep
    split at hstep
    · cases hstep
    · rename_i stream harrive
      cases hstep
      rw [List.append_nil]
      exact h.arrive harrive
  | pollNext =>
    simp only [Transport.step] at hstep
    split at hstep
    · cases hstep
    · rename_i client polls hpoll
      cases hstep
      exact h.pollNext hpoll
  | pollReader => exact h.pollReader hinv hstep

end Single

/-- With one stream the client drains it. -/
theorem Transport.drained_one {actions : List (Action μ)} {s : Transport μ} {tr : List (Event μ)}
    (h : run (Transport.step 1 maxBacklog) (.new μ 1) actions = .ok (s, tr)) : Drained tr :=
  (run_induction (P := fun _ s tr => s.Inv 1 tr ∧ Single s tr) ⟨.new 1, .new⟩
    (fun _ _ _ _ _ _ _ hinv hstep => ⟨hinv.1.step hstep, hinv.2.step hinv.1 hstep⟩) h).2.drained

/-! ### More than one stream -/

/-- What the send loop has done when it has ended. -/
structure Ended (n : ℕ) (s : Server μ) (sent : List (SendEvent μ)) : Prop where
  stopped : Stopped s
  finished : s.running = false → ∀ i < n, .finish i ∈ sent

theorem Ended.sendStep {s s' : Server μ} {sent out : List (SendEvent μ)} (h : Ended n s sent)
    (hinv : SendInv n s sent) (hrun : s.running) (hstep : SendStep s s' out) : Ended n s' (sent ++ out) := by
  refine ⟨h.stopped.step hstep, fun hstop i hi => ?_⟩
  cases hstep with
  | ended =>
    have hperm := hinv.streams
    rw [if_pos hrun] at hperm
    have hmem := hperm.mem_iff.mpr (List.mem_range.mpr hi)
    refine List.mem_append_right _ (List.mem_map_of_mem ?_)
    exact List.mem_append.mpr (List.mem_append.mp hmem).symm
  | quiet next source running => simp [running, hrun] at hstop
  | accepted data isOpen isRunning next source running => simp [running] at hstop
  | write j data waiting next source running => simp [running, hrun] at hstop
  | failed j error isOpen isRunning idle next source running => simp [running, hrun] at hstop

theorem Server.ended_run {actions : List (ServerAction μ)} {s : Server μ} {sent : List (SendEvent μ)}
    (h : run (Server.step maxBacklog) (.new μ n) actions = .ok (s, sent)) :
    SendInv n s sent ∧ Ended n s sent := by
  refine run_induction (P := fun _ s sent => SendInv n s sent ∧ Ended n s sent)
    ⟨.new n, ⟨fun _ => rfl, fun _ => rfl⟩, by simp [Server.new]⟩ ?_ h
  rintro _ s sent action s' out - ⟨hinv, hended⟩ hstep
  refine ⟨hinv.step hstep, ?_⟩
  obtain ⟨hrun, s₁, out₁, hselect, rfl, rfl⟩ := Server.step_eq_ok.mp hstep
  have h₁ := hended.sendStep hinv hrun (Server.select_cases hrun hselect)
  rw [← List.append_assoc]
  by_cases hrun₁ : s₁.running
  · exact h₁.sendStep (hinv.select hselect) hrun₁ (s₁.loopHead_cases _)
  · -- nothing is left to send
    have hidle := h₁.stopped.ended (by simpa using hrun₁)
    have hhead : s₁.loopHead maxBacklog = (s₁, []) := by
      unfold Server.loopHead
      split
      · simp [hidle]
      · rfl
    rw [hhead, List.append_nil]
    exact h₁

/-- The actions of the server in a run of the whole. -/
def Action.server? : Action μ → Option (ServerAction μ)
  | .server action => some action
  | _ => none

theorem run_server {actions : List (ServerAction μ)} {server : Server μ} {sent : List (SendEvent μ)} :
    ∀ {s : Transport μ}, run (Server.step maxBacklog) s.server actions = .ok (server, sent) →
      run (Transport.step n maxBacklog) s (actions.map .server) = .ok (s.send server sent, sent.map .sent) := by
  induction actions generalizing sent with
  | nil =>
    intro s h
    simp only [run_nil, Except.ok.injEq, Prod.mk.injEq] at h
    obtain ⟨rfl, rfl⟩ := h
    rfl
  | cons action actions ih =>
    intro s h
    obtain ⟨s₁, o₁, o₂, h₁, h₂, rfl⟩ := run_cons_ok.mp h
    refine run_cons_ok.mpr ⟨s.send s₁ o₁, o₁.map .sent, o₂.map .sent, ?_, ?_, List.map_append⟩
    · simp [Transport.step, h₁]
    · have hrest := ih (s := s.send s₁ o₁) h₂
      rwa [Single.send_send] at hrest

/-- A stream that is finished is delivered. -/
theorem run_arrive {i : ℕ} {flight arrived : List (Frame μ)} {s : Transport μ} (maxBacklog : ℕ)
    (h : s.streams i = ⟨flight, arrived, true, false⟩) :
    run (Transport.step n maxBacklog) s (List.replicate (flight.length + 1) (.arrive i)) =
      .ok ({ s with streams := Function.update s.streams i ⟨[], arrived ++ flight, true, true⟩ }, []) := by
  induction flight generalizing arrived s with
  | nil => simp [run, Transport.step, h, UniStream.arrive]
  | cons frame flight ih =>
    set s₁ : Transport μ :=
      { s with streams := Function.update s.streams i ⟨flight, arrived ++ [frame], true, false⟩ } with hs₁
    have hstep : Transport.step n maxBacklog s (.arrive i) = .ok (s₁, []) := by
      simp [Transport.step, h, UniStream.arrive, hs₁]
    have hstream : s₁.streams i = ⟨flight, arrived ++ [frame], true, false⟩ := Function.update_self ..
    rw [List.length_cons, List.replicate_succ]
    refine run_cons_ok.mpr ⟨s₁, [], [], hstep, ?_, rfl⟩
    rw [ih hstream]
    simp [hs₁]

/-- The polls of the client that end in a failure or the end, without a message. -/
def Loses (n maxBacklog : ℕ) (s : Transport μ) : Prop :=
  ∃ actions s' tr, (∀ a ∈ actions, Action.server? a = none) ∧
    run (Transport.step n maxBacklog) s actions = .ok (s', tr) ∧ sentIn tr = [] ∧
    ∃ pre x post, tr = pre ++ .polled x :: post ∧ x.isTerminal ∧ itemsIn (polledIn pre) = []

/-- Nothing arrives but the end of one stream, with what is on it, and not the message that is next. -/
structure Losing (n j : ℕ) (s : Transport μ) : Prop where
  lt : j < n
  isOpen : s.client.terminated = false
  missing : s.client.messages.get? s.client.msgId = none
  index : s.client.index < n
  silent : ∀ i < n, i ≠ j → (s.streams i).arrived = [] ∧ (s.streams i).ended = false
  ended : (s.streams j).ended = true
  elsewhere : s.client.msgId ∉ (entries (s.streams j).arrived).map Prod.fst

section Losing

variable {s s' : Transport μ} {j : ℕ}

theorem Loses.step (s' : Transport μ) (action : Action μ) (polls : List (PollEvent μ)) (haction : action.server? = none)
    (hstep : Transport.step n maxBacklog s action = .ok (s', polls.map .polled)) (hitems : itemsIn polls = [])
    (h : Loses n maxBacklog s') : Loses n maxBacklog s := by
  obtain ⟨actions, s₁, tr, hactions, hrun, hsent, pre, x, post, rfl, hterminal, hpre⟩ := h
  refine ⟨action :: actions, s₁, _, ?_, run_cons_ok.mpr ⟨s', _, _, hstep, hrun, rfl⟩, ?_,
    polls.map .polled ++ pre, x, post, (List.append_assoc ..).symm, hterminal, ?_⟩
  · simpa [haction] using hactions
  · rw [sentIn_append, sentIn_polled, hsent, List.append_nil]
  · rw [polledIn_append, polledIn_polled, itemsIn_append, hitems, hpre, List.append_nil]

theorem Loses.of_terminal {action : Action μ} {x : PollEvent μ} (haction : action.server? = none)
    (hstep : Transport.step n maxBacklog s action = .ok (s', [.polled x])) (hterminal : x.isTerminal) :
    Loses n maxBacklog s :=
  ⟨[action], s', [.polled x], by simpa using haction, run_singleton.mpr hstep, rfl, [], x, [], rfl,
    hterminal, rfl⟩

/-- The client is in `poll_next`. -/
def Transport.polling (s : Transport μ) (polled : List (ℕ × Bool)) : Transport μ :=
  { s with client := { s.client with polled := some polled } }

theorem Losing.start (h : Losing n j s) (hnext : ∀ polled, Loses n maxBacklog (s.polling polled)) :
    Loses n maxBacklog s := by
  cases hpolled : s.client.polled with
  | none =>
    refine Loses.step (s.polling []) .pollNext [] rfl ?_ rfl (hnext [])
    simp [Transport.step, Client.pollNext, h.isOpen, hpolled, h.missing, Transport.polling]
  | some polled =>
    have hsame : s.polling polled = s := by
      simp only [Transport.polling, ← hpolled]
    exact hsame ▸ hnext polled

theorem itemsIn_polledReader (n : ℕ) (client : Client μ) (polled : List (ℕ × Bool)) :
    itemsIn (client.polledReader n polled).2 = [] ∧
      ∃ polled', (client.polledReader n polled).1 = { client with polled := polled' } := by
  unfold Client.polledReader
  split
  · exact ⟨rfl, _, rfl⟩
  · exact ⟨rfl, _, rfl⟩

/-- The readers before the one of the stream return `Pending`. -/
theorem Losing.turn {frames : List (Frame μ)}
    (hhit : ∀ s, Losing n j s → (s.streams j).arrived = frames → s.client.index = j → Loses n maxBacklog s) :
    ∀ d s, Losing n j s → (s.streams j).arrived = frames → (s.client.index + d) % n = j →
      Loses n maxBacklog s := by
  intro d
  induction d with
  | zero =>
    intro s h harrived hindex
    exact hhit s h harrived (by rwa [Nat.add_zero, Nat.mod_eq_of_lt h.index] at hindex)
  | succ d ih =>
    intro s h harrived hindex
    by_cases hj : s.client.index = j
    · exact hhit s h harrived hj
    · refine h.start fun polled => ?_
      obtain ⟨hsilent, hopen⟩ := h.silent _ h.index hj
      obtain ⟨hitems, polled', hresult⟩ :=
        itemsIn_polledReader n { s.client with index := (s.client.index + 1) % n, polled := some polled }
          (polled ++ [(s.client.index, true)])
      have hread : (s.streams s.client.index).read = (.pending, s.streams s.client.index) := by
        simp [UniStream.read, hsilent, hopen]
      refine Loses.step
        { s with client := { s.client with index := (s.client.index + 1) % n, polled := polled' } } .pollReader _ rfl ?_ hitems (ih _ ?_ harrived ?_)
      · simp only [Transport.step, Transport.polling, h.index, if_true, hread, Client.received,
          Function.update_eq_self, hresult]
      · exact ⟨h.lt, h.isOpen, h.missing, Nat.mod_lt _ (by have := h.lt; omega), h.silent, h.ended, h.elsewhere⟩
      · dsimp only
        rw [Nat.mod_add_mod, Nat.add_right_comm, Nat.add_assoc]
        exact hindex

/-- The stream is read to its end: nothing that comes from it is the next message. -/
theorem Losing.loses {frames : List (Frame μ)} (maxBacklog : ℕ) : ∀ s, Losing n j s → (s.streams j).arrived = frames →
    Loses n maxBacklog s := by
  induction frames with
  | nil =>
    intro s h harrived
    obtain ⟨d, -, hd⟩ := exists_turn s.client.index h.lt
    refine Losing.turn (fun s h harrived hj => h.start fun polled => ?_) d s h harrived hd
    have hread : (s.streams j).read = (.finished, s.streams j) := by
      simp [UniStream.read, harrived, h.ended]
    have hstep : ∃ s', Transport.step n maxBacklog (s.polling polled) .pollReader =
        .ok (s', [.polled .finished]) := by
      simp only [Transport.step, Transport.polling, hj, h.lt, if_true, hread, Client.received]
      exact ⟨_, rfl⟩
    obtain ⟨s', hs'⟩ := hstep
    exact Loses.of_terminal (x := .finished) rfl hs' rfl
  | cons frame frames ih =>
    intro s h harrived
    obtain ⟨d, -, hd⟩ := exists_turn s.client.index h.lt
    refine Losing.turn (fun s h harrived hj => h.start fun polled => ?_) d s h harrived hd
    cases frame with
    | close error =>
      have hread : (s.streams j).read = (.error (.ofClose error), { s.streams j with arrived := frames }) := by
        simp [UniStream.read, harrived]
      have hstep : ∃ s', Transport.step n maxBacklog (s.polling polled) .pollReader =
          .ok (s', [.polled (.error (.ofClose error))]) := by
        simp only [Transport.step, Transport.polling, hj, h.lt, if_true, hread, Client.received]
        exact ⟨_, rfl⟩
      obtain ⟨s', hs'⟩ := hstep
      exact Loses.of_terminal (x := .error (.ofClose error)) rfl hs' rfl
    | message msgId data =>
      have hread : (s.streams j).read = (.message msgId data, { s.streams j with arrived := frames }) := by
        simp [UniStream.read, harrived]
      have helsewhere := h.elsewhere
      rw [harrived, entries_message, List.map_cons, List.mem_cons, not_or] at helsewhere
      obtain ⟨hne, helsewhere⟩ := helsewhere
      obtain ⟨hitems, polled', hresult⟩ :=
        itemsIn_polledReader n
          { s.client with
            messages := s.client.messages.insert msgId data
            index := (j + 1) % n
            polled := some polled }
          (polled ++ [(j, false)])
      refine Loses.step
        { s with
          client :=
            { s.client with
              messages := s.client.messages.insert msgId data
              index := (j + 1) % n
              polled := polled' }
          streams := Function.update s.streams j { s.streams j with arrived := frames } } .pollReader _ rfl ?_ hitems
        (ih _ ?_ (by simp))
      · simp only [Transport.step, Transport.polling, hj, h.lt, if_true, hread, Client.received, hne, if_false,
          hresult]
      · refine ⟨h.lt, h.isOpen, ?_, Nat.mod_lt _ (by have := h.lt; omega), ?_, by simp [h.ended], ?_⟩
        · dsimp only
          rw [SortedMap.get?_insert_of_ne _ _ hne]
          exact h.missing
        · intro i hi hij
          simp only [Function.update_of_ne hij]
          exact h.silent i hi hij
        · simpa using helsewhere

end Losing

namespace Transport

/-- Where the first message is not, the ids of the streams being different. -/
theorem Inv.not_mem_ids {s : Transport μ} {tr : List (Event μ)} {i j msgId : ℕ} (h : s.Inv n tr) (hi : i < n)
    (hj : j < n) (hne : i ≠ j) (hmem : msgId ∈ (s.streams i).ids) : msgId ∉ (s.streams j).ids := by
  have hnodup := h.read.order.nodup
  rw [transit, List.map_flatMap, List.nodup_flatMap] at hnodup
  have hsymm : Std.Symm (Function.onFun List.Disjoint fun a => (entries (s.streams a).queue).map Prod.fst) :=
    ⟨fun _ _ hdisjoint => hdisjoint.symm⟩
  have hdisjoint := hnodup.2.forall (List.mem_range.mpr hi) (List.mem_range.mpr hj) hne
  exact fun hmem' => hdisjoint hmem hmem'

/-- **With more than one stream messages are lost.** After every run of the send loop that has accepted a
message there is a client that fails or ends without one. -/
theorem exists_losing {actions : List (ServerAction μ)} {server : Server μ} {sent : List (SendEvent μ)}
    (hrun : run (Server.step maxBacklog) (.new μ n) actions = .ok (server, sent))
    (hended : server.running = false) (haccepted : acceptedIn sent ≠ []) (hn : 2 ≤ n) :
    ∃ acts s tr, acts.filterMap Action.server? = actions ∧
      run (step n maxBacklog) (.new μ n) acts = .ok (s, tr) ∧ ¬Drained tr := by
  obtain ⟨hsend, hdone⟩ := Server.ended_run hrun
  have hserver := run_server (n := n) (s := .new μ n) hrun
  set s₀ := (new μ n).send server sent with hs₀
  have hinv := inv_run hserver
  -- the first message is on the stream `i`, and `j` is another
  have hwritten := hsend.length_writtenIn (hdone.stopped.ended hended)
  obtain ⟨i, data, hwrite⟩ := hsend.exists_write (hwritten ▸ List.length_pos_iff.mpr haccepted)
  have hi : 0 ∈ (s₀.streams i).ids := by
    rcases hinv.read.located i 0 data (by rwa [sentIn_sent]) (Nat.zero_le _) with hcontains | hin
    · simp [hs₀, Transport.send, new, Client.new] at hcontains
    · exact hin
  obtain ⟨j, hj, hij⟩ : ∃ j < n, i ≠ j := by
    by_cases hi0 : i = 0
    · exact ⟨1, by omega, by omega⟩
    · exact ⟨0, by omega, hi0⟩
  obtain ⟨harrived, hend, hfinished⟩ := foldl_apply sent (new μ n).streams j
  have hstream : s₀.streams j = ⟨(s₀.streams j).inFlight, [], true, false⟩ :=
    UniStream.ext rfl harrived (hfinished.mpr (.inr (hdone.finished hended j hj))) hend
  have harrive := run_arrive (n := n) maxBacklog hstream
  set s₁ : Transport μ :=
    { s₀ with streams := Function.update s₀.streams j ⟨[], [] ++ (s₀.streams j).inFlight, true, true⟩ } with hs₁
  have hlosing : Losing n j s₁ := by
    refine ⟨hj, rfl, rfl, by simp only [hs₁, hs₀, send, new, Client.new]; omega, ?_, by simp [hs₁], ?_⟩
    · intro k hk hkj
      obtain ⟨harrived, hend, -⟩ := foldl_apply sent (new μ n).streams k
      simp only [hs₁, Function.update_of_ne hkj]
      exact ⟨harrived, hend⟩
    · have hids := hinv.not_mem_ids (hsend.bounded i _ hwrite) hj hij hi
      rw [UniStream.ids, hstream] at hids
      rw [show s₁.client.msgId = 0 from rfl]
      simpa [hs₁, UniStream.queue] using hids
  obtain ⟨polls, s₂, tr, hpolls, hlost, hsent, pre, x, post, rfl, hterminal, hitems⟩ :=
    hlosing.loses maxBacklog s₁ rfl
  refine ⟨actions.map .server ++ (List.replicate _ (.arrive j) ++ polls), s₂, _, ?_,
    run_append.mpr ⟨s₀, _, _, hserver, run_append.mpr ⟨s₁, _, _, harrive, hlost, rfl⟩, rfl⟩, fun hdrained => ?_⟩
  · have hpolls' : polls.filterMap Action.server? = [] := List.filterMap_eq_nil_iff.mpr hpolls
    have hserver' : (actions.map Action.server).filterMap Action.server? = actions := by
      simp [List.filterMap_map, Function.comp_def, Action.server?]
    simp [hpolls', hserver', List.filterMap_replicate, Action.server?]
  · have hitems' := (hdrained (sent.map .sent ++ pre) x post (by simp) hterminal).1
    rw [polledIn_append, polledIn_sent, List.nil_append, hitems, List.nil_append, sentIn_append, sentIn_sent,
      hsent, List.append_nil] at hitems'
    exact haccepted hitems'.symm

/-- **The close loses nothing with one stream only.** Of a run of the send loop that ends after it has accepted
messages, every client yields all of them before it fails or ends if and only if there is one stream. -/
theorem drained_iff {actions : List (ServerAction μ)} {server : Server μ} {sent : List (SendEvent μ)}
    (hrun : run (Server.step maxBacklog) (.new μ n) actions = .ok (server, sent))
    (hended : server.running = false) (haccepted : acceptedIn sent ≠ []) :
    (∀ acts s tr, acts.filterMap Action.server? = actions →
      run (step n maxBacklog) (.new μ n) acts = .ok (s, tr) → Drained tr) ↔ n = 1 := by
  constructor
  · intro hall
    by_contra hne
    have hn : n ≠ 0 := by
      rintro rfl
      obtain ⟨hsend, hdone⟩ := Server.ended_run hrun
      have hwritten := hsend.length_writtenIn (hdone.stopped.ended hended)
      obtain ⟨i, data, hwrite⟩ := hsend.exists_write (hwritten ▸ List.length_pos_iff.mpr haccepted)
      exact absurd (hsend.bounded i _ hwrite) (Nat.not_lt_zero i)
    obtain ⟨acts, s, tr, hacts, hlost, hnot⟩ := exists_losing hrun hended haccepted (by omega)
    exact hnot (hall acts s tr hacts hlost)
  · rintro rfl acts s tr - h
    exact drained_one h

/-- A source that fails after one message, and two streams. -/
theorem drained_iff_lagged : ∃ server sent,
    run (Server.step 8) (.new ℕ 2) [.message 7, .failed .lagged 0, .ended] = .ok (server, sent) ∧
    ((∀ acts s tr, acts.filterMap Action.server? = [.message 7, .failed .lagged 0, .ended] →
      run (step 2 8) (.new ℕ 2) acts = .ok (s, tr) → Drained tr) ↔ 2 = 1) := by
  obtain ⟨server, sent, hrun, hend⟩ := exists_of_returns
    (p := fun s sent => !s.running && !(acceptedIn sent).isEmpty)
    (x := run (Server.step 8) (.new ℕ 2) [.message 7, .failed .lagged 0, .ended]) (by decide +kernel)
  simp only [Bool.and_eq_true, Bool.not_eq_true', List.isEmpty_eq_false_iff] at hend
  exact ⟨server, sent, hrun, drained_iff hrun hend.1 hend.2⟩

/-- The error of the source overtakes the message: the client fails without it. -/
theorem drained_fails : ¬∀ (n maxBacklog : ℕ) (acts : List (Action ℕ)) (s : Transport ℕ) (tr : List (Event ℕ)),
    run (step n maxBacklog) (.new ℕ n) acts = .ok (s, tr) → s.server.running = false → Drained tr := by
  intro h
  obtain ⟨s, tr, hrun, hend⟩ := exists_of_returns
    (p := fun (s : Transport ℕ) (tr : List (Event ℕ)) => !s.server.running && decide (tr =
      [.sent (.accepted 7), .sent (.write 0 (.message 0 7)), .sent (.failed .lagged), .sent (.write 1 (.close 0)),
        .sent (.finish 0), .sent (.finish 1)] ++ .polled (.error .lagged) :: []))
    (x := run (step 2 8) (.new ℕ 2) [.server (.message 7), .server (.failed .lagged 0), .server .ended,
      .arrive 1, .pollNext, .pollReader, .pollReader]) (by decide +kernel)
  simp only [Bool.and_eq_true, Bool.not_eq_true', decide_eq_true_eq] at hend
  have hitems := (h 2 8 _ s tr hrun hend.1 _ _ _ hend.2 rfl).1
  rw [hend.2] at hitems
  exact absurd hitems (by decide)

end Transport

end Richat.Quic
