import Richat.Channel.Receiver
import Richat.Pubsub.Worker

/-!
# Where the worker starts

The worker loads the published tail of the processed stream three times, and takes it as its position in each of
the streams. `StartsAtTail` says when this is a position of the stream: the one of its last message, or the next
one. Then the worker `Follows` the stream. A stream without messages, or with a tail of its own, is not followed:
`Worker.lags_at_start` and `Worker.skips_confirmed`.
-/

namespace Richat

open Lib

/-- How many messages of the stream were published. -/
def Channel.published (c : Channel) : ℕ := c.sender.shared.tail - (c.sender.shared.mask + 1)

namespace Worker

variable {env : WorkerEnv} {cfg : ConfigWorker} {s s' s₀ s₁ : Worker} {out events : List WorkerEvent}
  {level : CommitmentLevel} {tick : Tick}

/-! ### What a step does to the streams -/

/-- The streams, the positions and the subscriptions are the same. -/
structure SameStreams (s s' : Worker) : Prop where
  rings : s'.rings = s.rings
  heads : s'.heads = s.heads
  tracker : s'.tracker = s.tracker

theorem SameStreams.trans {s'' : Worker} (h : SameStreams s s') (h' : SameStreams s' s'') :
    SameStreams s s'' where
  rings := h'.rings.trans h.rings
  heads := h'.heads.trans h.heads
  tracker := h'.tracker.trans h.tracker

theorem sameStreams_observe {message : ParsedMessage} {extra : Option (ParsedMessage × SlotTransactionStats)}
    (h : s.observe env message = .ok (s', extra)) : SameStreams s s' := by
  unfold observe at h
  split at h
  · cases h
  · dsimp only at h
    split at h
    · cases h
      exact ⟨rfl, rfl, rfl⟩
    · split at h
      · cases h
        exact ⟨rfl, rfl, rfl⟩
      · cases h
        exact ⟨rfl, rfl, rfl⟩

/-- A message is observed, and the jobs of its candidates are collected. -/
theorem collectMessage_eq_ok {tick' : Tick} {message : ParsedMessage}
    (h : s.collectMessage env tick message = .ok (s', tick')) : ∃ extra candidates jobs,
      (if tick.level = .processed then s.observe env message else .ok (s, none)) = .ok (s', extra) ∧
      SameStreams s s' ∧
      (s.tracker.subscriptions.index tick.level).candidates env.accountKeys message = .ok candidates ∧
      s.tracker.subscriptions.jobs candidates = .ok jobs ∧
      tick' = { tick with
        messagesExtra := tick.messagesExtra ++ extra.toList
        jobs := tick.jobs ++ jobs.map fun job => ⟨job.1, message, job.2, none⟩ } := by
  unfold collectMessage at h
  split at h
  · cases h
  · rename_i s₁ extra hobserve
    have hsame : SameStreams s s₁ := by
      split at hobserve
      · exact sameStreams_observe hobserve
      · cases hobserve
        exact ⟨rfl, rfl, rfl⟩
    split at h
    · cases h
    · rename_i candidates hcandidates
      split at h
      · cases h
      · rename_i jobs hjobs
        cases h
        rw [hsame.tracker] at hcandidates hjobs
        exact ⟨extra, candidates, jobs, hobserve, hsame, hcandidates, hjobs, rfl⟩

theorem sameStreams_collectMessage {tick' : Tick} {message : ParsedMessage}
    (h : s.collectMessage env tick message = .ok (s', tick')) :
    SameStreams s s' ∧ tick'.level = tick.level := by
  obtain ⟨extra, candidates, jobs, -, hsame, -, -, rfl⟩ := collectMessage_eq_ok h
  exact ⟨hsame, rfl⟩

theorem sameStreams_collectMessages {messages : List ParsedMessage} : ∀ {s : Worker} {tick tick' : Tick},
    s.collectMessages env messages tick = .ok (s', tick') → SameStreams s s' ∧ tick'.level = tick.level := by
  induction messages with
  | nil =>
    intro s tick tick' h
    cases h
    exact ⟨⟨rfl, rfl, rfl⟩, rfl⟩
  | cons message messages ih =>
    intro s tick tick' h
    unfold collectMessages at h
    split at h
    · cases h
    · rename_i s₁ tick₁ hmessage
      obtain ⟨hsame, hlevel⟩ := sameStreams_collectMessage hmessage
      obtain ⟨hsame', hlevel'⟩ := ih h
      exact ⟨hsame.trans hsame', hlevel'.trans hlevel⟩

/-- No head is to be loaded, and no cell to be read. -/
def WorkerPhase.Quiet : WorkerPhase → Prop
  | .heads _ => False
  | .collect tick => tick.reading = false
  | _ => True

theorem finishStream_fields (h : s.finishStream env tick = .ok s') : SameStreams s s' ∧ WorkerPhase.Quiet s'.phase := by
  unfold finishStream at h
  split at h
  · cases h
  · rename_i s₁ tick₁ hcollect
    obtain ⟨⟨hrings, hheads, htracker⟩, -⟩ := sameStreams_collectMessages hcollect
    dsimp only at h
    split at h
    · cases h
      exact ⟨⟨hrings, hheads, htracker⟩, rfl⟩
    · cases h
      exact ⟨⟨hrings, hheads, htracker⟩, rfl⟩
    · split at h
      · cases h
      · split at h
        · cases h
          exact ⟨⟨hrings, hheads, htracker⟩, trivial⟩
        · split at h
          · cases h
          · cases h
            exact ⟨⟨hrings, hheads, htracker⟩, trivial⟩

/-- What a step does to the streams and the positions. -/
inductive StreamStep (env : WorkerEnv) (s s' : Worker) : List WorkerEvent → Prop where
  | ring (level : CommitmentLevel) (action : ChannelAction) (ring : Channel) (channelEvents : List ChannelEvent) :
      Channel.step env.size (s.rings level) action = .ok (ring, channelEvents) →
      s'.rings = Function.update s.rings level ring → s'.heads = s.heads → s'.phase = s.phase →
      StreamStep env s s' (channelEvents.map (.ring level))
  | started (level : CommitmentLevel) (levels : List CommitmentLevel) :
      s.phase = .heads (level :: levels) → s'.rings = s.rings →
      s'.heads = Function.update s.heads level (s.rings .processed).sender.shared.tail →
      s'.phase = (if levels.isEmpty then .requests 0 else .heads levels) →
      StreamStep env s s' [.started level]
  | reading (tick : Tick) : s.phase = .collect tick →
      s.heads tick.level ≤ (s.rings tick.level).sender.shared.tail → s'.rings = s.rings → s'.heads = s.heads →
      s'.phase = .collect { tick with reading := true } → StreamStep env s s' []
  | consumed (tick : Tick) (message : ParsedMessage) : s.phase = .collect tick → tick.reading = true →
      ((s.rings tick.level).sender.shared.item (s.heads tick.level)).pos = s.heads tick.level →
      ((s.rings tick.level).sender.shared.item (s.heads tick.level)).data = some message →
      s'.rings = s.rings →
      s'.heads = Function.update s.heads tick.level (s.heads tick.level + 1) →
      s'.phase = .collect (tick.receive message) → StreamStep env s s' [.consumed tick.level message]
  | lagged (tick : Tick) : s.phase = .collect tick → tick.reading = true →
      (((s.rings tick.level).sender.shared.item (s.heads tick.level)).pos ≠ s.heads tick.level ∨
        ((s.rings tick.level).sender.shared.item (s.heads tick.level)).data = none) →
      s'.rings = s.rings → s'.heads = s.heads → s'.phase = .stopped →
      StreamStep env s s' [.lagged tick.level]
  | empty (tick : Tick) : s.phase = .collect tick →
      (s.rings tick.level).sender.shared.tail < s.heads tick.level → s'.rings = s.rings →
      s'.heads = s.heads → WorkerPhase.Quiet s'.phase → StreamStep env s s' [.empty tick.level]
  | quiet (sent : List TrackerEvent) : s'.rings = s.rings → s'.heads = s.heads →
      WorkerPhase.Quiet s'.phase ∨ s'.phase = s.phase → StreamStep env s s' (sent.map .sent)

theorem track_fields {action : TrackerAction} {phase : WorkerPhase}
    (h : s.track env action phase = .ok (s', out)) :
    s'.rings = s.rings ∧ s'.heads = s.heads ∧ s'.phase = phase ∧ ∃ sent : List TrackerEvent, out = sent.map .sent := by
  unfold track at h
  split at h
  · cases h
  · cases h
    exact ⟨rfl, rfl, rfl, _, rfl⟩

theorem receive_fields (tick : Tick) (message : ParsedMessage) :
    (tick.receive message).reading = false ∧ (tick.receive message).level = tick.level := by
  unfold Tick.receive
  split <;> exact ⟨rfl, rfl⟩

theorem streamStep {a : WorkerAction} (h : step env cfg s a = .ok (s', out)) : StreamStep env s s' out := by
  cases a with
  | ring level action =>
    simp only [step] at h
    split at h
    · cases h
    · rename_i ring channelEvents hstep
      cases h
      exact .ring level action ring channelEvents hstep rfl rfl rfl
  | loadHead =>
    simp only [step] at h
    split at h
    · rename_i level levels hphase
      cases h
      exact .started level levels hphase rfl rfl rfl
    · cases h
  | request request =>
    simp only [step] at h
    split at h
    · split at h
      · obtain ⟨hrings, hheads, hphase, sent, rfl⟩ := track_fields h
        exact .quiet sent hrings hheads (.inl (by rw [hphase]; trivial))
      · cases h
    · cases h
  | collect =>
    simp only [step] at h
    split at h
    · cases h
      exact .quiet [] rfl rfl (.inl rfl)
    · cases h
  | load =>
    simp only [step] at h
    split at h
    · rename_i tick hphase
      split at h
      · cases h
      · split at h
        · split at h
          · rename_i hle
            cases h
            exact .reading tick hphase hle rfl rfl rfl
          · rename_i hlt
            rcases hfinish : s.finishStream env tick with e | s₁
            · rw [hfinish] at h
              cases h
            · rw [hfinish] at h
              cases h
              obtain ⟨⟨hrings, hheads, -⟩, hquiet⟩ := finishStream_fields hfinish
              exact .empty tick hphase (not_le.mp hlt) hrings hheads hquiet
        · rcases hfinish : s.finishStream env tick with e | s₁
          · rw [hfinish] at h
            cases h
          · rw [hfinish] at h
            cases h
            obtain ⟨⟨hrings, hheads, -⟩, hquiet⟩ := finishStream_fields hfinish
            exact .quiet [] hrings hheads (.inl hquiet)
    · cases h
  | read =>
    simp only [step] at h
    split at h
    · rename_i tick hphase
      split at h
      · rename_i hreading
        split at h
        · rename_i hpos
          cases h
          exact .lagged tick hphase hreading (.inl hpos) rfl rfl rfl
        · rename_i hpos
          split at h
          · rename_i hdata
            cases h
            exact .lagged tick hphase hreading (.inr hdata) rfl rfl rfl
          · rename_i message hdata
            cases h
            exact .consumed tick message hphase hreading (not_not.mp hpos) hdata rfl rfl rfl
      · cases h
    · cases h
  | deliver =>
    simp only [step] at h
    split at h
    · cases h
      exact .quiet [] rfl rfl (.inl trivial)
    · obtain ⟨hrings, hheads, hphase, sent, rfl⟩ := track_fields h
      exact .quiet sent hrings hheads (.inl (by rw [hphase]; trivial))
    · cases h
  | recv channel =>
    simp only [step] at h
    obtain ⟨hrings, hheads, hphase, sent, rfl⟩ := track_fields h
    exact .quiet sent hrings hheads (.inr hphase)
  | close channel =>
    simp only [step] at h
    obtain ⟨hrings, hheads, hphase, sent, rfl⟩ := track_fields h
    exact .quiet sent hrings hheads (.inr hphase)

/-! ### The events of a stream -/

theorem channelEvents_append (level : CommitmentLevel) (l l' : List WorkerEvent) :
    channelEvents level (l ++ l') = channelEvents level l ++ channelEvents level l' := List.filterMap_append

theorem consumedFrom_append (level : CommitmentLevel) (l l' : List WorkerEvent) :
    consumedFrom level (l ++ l') = consumedFrom level l ++ consumedFrom level l' := List.filterMap_append

theorem channelEvents_ring (level other : CommitmentLevel) (l : List ChannelEvent) :
    channelEvents level (l.map (.ring other)) = if other = level then l else [] := by
  induction l with
  | nil => split <;> rfl
  | cons e l ih =>
    rw [List.map_cons, channelEvents, List.filterMap_cons, ← channelEvents, ih]
    by_cases h : other = level <;> simp [WorkerEvent.ring?, h]

theorem consumedFrom_ring (level other : CommitmentLevel) (l : List ChannelEvent) :
    consumedFrom level (l.map (.ring other)) = [] := by
  induction l with
  | nil => rfl
  | cons e l ih => exact ih

theorem events_sent (level : CommitmentLevel) (l : List TrackerEvent) :
    channelEvents level (l.map .sent) = [] ∧ consumedFrom level (l.map .sent) = [] := by
  induction l with
  | nil => exact ⟨rfl, rfl⟩
  | cons e l ih => exact ih

/-! ### A stream that the worker reads -/

theorem channelEvents_map_append (level other : CommitmentLevel) (events : List WorkerEvent)
    (l : List ChannelEvent) : channelEvents level (events ++ l.map (.ring other)) =
      if other = level then channelEvents level events ++ l else channelEvents level events := by
  rw [channelEvents_append, channelEvents_ring]
  split <;> simp

/-- The streams, with what a loaded tail tells about the cell to be read. -/
structure StreamsInv (env : WorkerEnv) (k : ℕ) (events : List WorkerEvent) (s : Worker) : Prop where
  channels : ∀ level, ChannelInv env.size k (channelEvents level events) (s.rings level)
  heads : ∀ levels, s.phase = .heads levels → levels.Nodup
  reading : ∀ tick, s.phase = .collect tick → tick.reading = true →
    s.heads tick.level ≤ (s.rings tick.level).sender.shared.tail

namespace StreamsInv

variable {k : ℕ}

theorem new {channel : ConfigChannelInner} (hk : nextPowerOfTwo channel.maxMessages = 2 ^ k) :
    StreamsInv env k [] (.new cfg channel) where
  channels := fun _ => .new hk
  heads := by
    intro levels h
    cases h
    decide
  reading := by
    intro tick h
    cases h

/-- A step that leaves the streams alone. -/
theorem keep (h : StreamsInv env k events s) (hrings : s'.rings = s.rings)
    (hevents : ∀ level, channelEvents level out = []) (hheads : ∀ levels, s'.phase = .heads levels → levels.Nodup)
    (hreading : ∀ tick, s'.phase = .collect tick → tick.reading = true →
      s'.heads tick.level ≤ (s'.rings tick.level).sender.shared.tail) :
    StreamsInv env k (events ++ out) s' where
  channels := by
    intro level
    rw [channelEvents_append, hevents, List.append_nil, hrings]
    exact h.channels level
  heads := hheads
  reading := hreading

theorem step (h : StreamsInv env k events s) (hstep : StreamStep env s s' out) :
    StreamsInv env k (events ++ out) s' := by
  cases hstep with
  | ring level action ring channelEvents hring hrings hheads hphase =>
    have hchannel := h.channels level
    refine ⟨fun other => ?_, fun levels hl => h.heads levels (hphase ▸ hl), fun tick ht hreading => ?_⟩
    · rw [channelEvents_map_append, hrings]
      by_cases hlevel : level = other
      · subst hlevel
        rw [if_pos rfl, Function.update_self]
        exact hchannel.step hring
      · rw [if_neg hlevel, Function.update_of_ne (Ne.symm hlevel)]
        exact h.channels other
    · have hle := h.reading tick (hphase ▸ ht) hreading
      rw [hheads, hrings]
      by_cases hlevel : tick.level = level
      · rw [hlevel, Function.update_self]
        exact (hlevel ▸ hle).trans (hchannel.tail_le hring)
      · rw [Function.update_of_ne hlevel]
        exact hle
  | started level levels hphase hrings hheads hphase' =>
    refine h.keep hrings (fun _ => rfl) (fun levels' hl => ?_) fun tick ht => ?_
    · rw [hphase'] at hl
      split at hl
      · cases hl
      · cases hl
        exact (h.heads _ hphase).of_cons
    · rw [hphase'] at ht
      split at ht <;> cases ht
  | reading tick hphase hle hrings hheads hphase' =>
    refine h.keep hrings (fun _ => rfl) (fun levels hl => ?_) fun tick' ht _ => ?_
    · rw [hphase'] at hl
      cases hl
    · rw [hphase'] at ht
      cases ht
      rw [hheads, hrings]
      exact hle
  | consumed tick message hphase hreading hpos hdata hrings hheads hphase' =>
    refine h.keep hrings (fun _ => rfl) (fun levels hl => ?_) fun tick' ht hreading' => ?_
    · rw [hphase'] at hl
      cases hl
    · rw [hphase'] at ht
      cases ht
      rw [(receive_fields tick message).1] at hreading'
      cases hreading'
  | lagged tick hphase hreading hread hrings hheads hphase' =>
    refine h.keep hrings (fun _ => rfl) (fun levels hl => ?_) fun tick' ht => ?_
    · rw [hphase'] at hl
      cases hl
    · rw [hphase'] at ht
      cases ht
  | empty tick hphase hlt hrings hheads hquiet =>
    refine h.keep hrings (fun _ => rfl) (fun levels hl => ?_) fun tick' ht hreading => ?_
    · rw [hl] at hquiet
      exact hquiet.elim
    · rw [ht] at hquiet
      exact absurd (hreading.symm.trans hquiet) (by decide)
  | quiet sent hrings hheads hphase =>
    refine h.keep hrings (fun level => (events_sent level sent).1) (fun levels hl => ?_) fun tick ht hreading => ?_
    · rcases hphase with hquiet | hphase
      · rw [hl] at hquiet
        exact hquiet.elim
      · exact h.heads levels (hphase ▸ hl)
    · rcases hphase with hquiet | hphase
      · rw [ht] at hquiet
        exact absurd (hreading.symm.trans hquiet) (by decide)
      · rw [hheads, hrings]
        exact h.reading tick (hphase ▸ ht) hreading

theorem run {channel : ConfigChannelInner} {actions : List WorkerAction}
    (hk : nextPowerOfTwo channel.maxMessages = 2 ^ k)
    (hrun : Lib.run (Worker.step env cfg) (.new cfg channel) actions = .ok (s, events)) :
    StreamsInv env k events s :=
  run_induction (P := fun _ s events => StreamsInv env k events s) (.new hk)
    (fun _ _ _ _ _ _ _ h hstep => h.step (streamStep hstep)) hrun

end StreamsInv

/-- After the events `before`, the worker started at the position `start` of the stream. -/
structure Reads (k : ℕ) (level : CommitmentLevel) (start : ℕ) (before : List WorkerEvent) (s : Worker)
    (tr : List WorkerEvent) : Prop where
  loaded : ∀ levels, s.phase = .heads levels → level ∉ levels
  first : 2 ^ k + 1 ≤ start
  head : s.heads level = start + (consumedFrom level tr).length
  tail : s.heads level ≤ (s.rings level).sender.shared.tail + 1
  consumed : (consumedFrom level tr).map some <+:
    ((storedItems (channelEvents level (before ++ tr))).drop (start - (2 ^ k + 1))).map (·.data)

theorem prefix_concat {β : Type*} {l m : List β} {x : β} (h : l <+: m) (hx : m[l.length]? = some x) :
    l ++ [x] <+: m := by
  obtain ⟨t, rfl⟩ := h
  rw [List.getElem?_append_right le_rfl, Nat.sub_self] at hx
  cases t with
  | nil => cases hx
  | cons y t =>
    obtain rfl := Option.some.inj hx
    exact ⟨t, by rw [List.append_assoc, List.singleton_append]⟩

namespace Reads

variable {k start : ℕ} {before tr : List WorkerEvent}

/-- The item at the position of the worker. -/
theorem index (h : Reads k level start before s tr) :
    start - (2 ^ k + 1) + (consumedFrom level tr).length = s.heads level - (2 ^ k + 1) := by
  have hfirst := h.first
  have hhead := h.head
  omega

/-- A step that does not touch the position. -/
theorem keep (h : Reads k level start before s tr) (hhead : s'.heads level = s.heads level)
    (htail : (s.rings level).sender.shared.tail ≤ (s'.rings level).sender.shared.tail)
    (hconsumed : consumedFrom level out = []) (hloaded : ∀ levels, s'.phase = .heads levels → level ∉ levels) :
    Reads k level start before s' (tr ++ out) := by
  have hsame : consumedFrom level (tr ++ out) = consumedFrom level tr := by
    rw [consumedFrom_append, hconsumed, List.append_nil]
  constructor
  · exact hloaded
  · exact h.first
  · rw [hhead, hsame]
    exact h.head
  · rw [hhead]
    exact h.tail.trans (Nat.succ_le_succ htail)
  · rw [hsame, ← List.append_assoc, channelEvents_append, storedItems_append]
    exact h.consumed.trans (((List.prefix_append _ _).drop _).map _)

theorem step (h : Reads k level start before s tr) (hinv : StreamsInv env k (before ++ tr) s)
    (hstep : StreamStep env s s' out) : Reads k level start before s' (tr ++ out) := by
  cases hstep with
  | ring other action ring channelEvents hring hrings hheads hphase =>
    refine h.keep (by rw [hheads]) ?_ (consumedFrom_ring level other channelEvents) fun levels hl =>
      h.loaded levels (hphase ▸ hl)
    rw [hrings]
    by_cases hlevel : level = other
    · subst hlevel
      rw [Function.update_self]
      exact (hinv.channels level).tail_le hring
    · rw [Function.update_of_ne hlevel]
  | started other levels hphase hrings hheads hphase' =>
    have hloaded := h.loaded _ hphase
    refine h.keep ?_ (by rw [hrings]) rfl fun levels' hl => ?_
    · rw [hheads, Function.update_of_ne fun heq => hloaded (by rw [heq]; exact List.mem_cons_self)]
    · rw [hphase'] at hl
      split at hl
      · cases hl
      · cases hl
        exact fun hmem => hloaded (List.mem_cons_of_mem _ hmem)
  | reading tick hphase hle hrings hheads hphase' =>
    refine h.keep (by rw [hheads]) (by rw [hrings]) rfl fun levels hl => ?_
    rw [hphase'] at hl
    cases hl
  | consumed tick message hphase hreading hpos hdata hrings hheads hphase' =>
    have hloaded : ∀ levels, s'.phase = .heads levels → level ∉ levels := by
      intro levels hl
      rw [hphase'] at hl
      cases hl
    by_cases hlevel : tick.level = level
    · subst hlevel
      have hget := (hinv.channels tick.level).item_of_read hpos hdata
      have hone : consumedFrom tick.level [.consumed tick.level message] = [message] := by
        simp [consumedFrom, WorkerEvent.consumed?]
      constructor
      · exact hloaded
      · exact h.first
      · rw [hheads, Function.update_self, h.head, consumedFrom_append, hone, List.length_append]
        rfl
      · rw [hheads, Function.update_self, hrings]
        exact Nat.succ_le_succ (hinv.reading tick hphase hreading)
      · rw [consumedFrom_append, hone, List.map_append, ← List.append_assoc, channelEvents_append]
        rw [show channelEvents tick.level [.consumed tick.level message] = [] from rfl, List.append_nil]
        refine prefix_concat h.consumed ?_
        rw [List.length_map, List.getElem?_map, List.getElem?_drop, h.index, hget, Option.map_some, hdata]
    · refine h.keep ?_ (by rw [hrings]) ?_ hloaded
      · rw [hheads, Function.update_of_ne (Ne.symm hlevel)]
      · simp [consumedFrom, WorkerEvent.consumed?, hlevel]
  | lagged tick hphase hreading hread hrings hheads hphase' =>
    refine h.keep (by rw [hheads]) (by rw [hrings]) rfl fun levels hl => ?_
    rw [hphase'] at hl
    cases hl
  | empty tick hphase hlt hrings hheads hquiet =>
    refine h.keep (by rw [hheads]) (by rw [hrings]) rfl fun levels hl => ?_
    rw [hl] at hquiet
    exact hquiet.elim
  | quiet sent hrings hheads hphase =>
    refine h.keep (by rw [hheads]) (by rw [hrings]) (events_sent level sent).2 fun levels hl => ?_
    rcases hphase with hquiet | hphase
    · rw [hl] at hquiet
      exact hquiet.elim
    · exact h.loaded levels (hphase ▸ hl)

/-- `try_recv` finds nothing only when all published messages are consumed. -/
theorem empty (h : Reads k level start before s tr) (hinv : StreamsInv env k (before ++ tr) s)
    (hlt : (s.rings level).sender.shared.tail < s.heads level) :
    start - (2 ^ k + 1) + (consumedFrom level tr).length = (s.rings level).published := by
  have hmask := (hinv.channels level).ring.mask
  have htail := h.tail
  have hpos := Nat.two_pow_pos k
  rw [h.index, Channel.published, hmask]
  omega

/-- `try_recv` lags only when the next message has left the ring. -/
theorem lagged (h : Reads k level start before s tr) (hinv : StreamsInv env k (before ++ tr) s)
    (hle : s.heads level ≤ (s.rings level).sender.shared.tail)
    (hread : ((s.rings level).sender.shared.item (s.heads level)).pos ≠ s.heads level ∨
      ((s.rings level).sender.shared.item (s.heads level)).data = none) :
    ∃ item, (storedItems (channelEvents level (before ++ tr)))[start - (2 ^ k + 1) +
        (consumedFrom level tr).length]? = some item ∧ item.pos < (s.rings level).sender.head := by
  have hchannel := hinv.channels level
  have hle' := hle.trans hchannel.shared_tail_le
  have hfirst := h.first
  have hhead := h.head
  obtain ⟨item, hitem⟩ := hchannel.ring.keeps.exists_log (p := s.heads level) (by omega) hle'
  refine ⟨item, by rw [h.index]; exact hitem, ?_⟩
  have hpos := hchannel.ring.pos _ _ hitem
  by_contra hge
  obtain ⟨-, hkept, hlive⟩ := hchannel.item_of_kept (p := s.heads level) (by omega) hle'
  rcases hread with hread | hread
  · exact hread hkept
  · rw [hread] at hlive
    cases hlive

end Reads

/-! ### The start -/

/-- The published tail of the processed stream is a position of the stream: the one of its last message, or the
next one. -/
def StartsAtTail (s : Worker) (level : CommitmentLevel) : Prop :=
  let tail := (s.rings .processed).sender.shared.tail
  tail = (s.rings level).sender.shared.tail ∧ 0 < (s.rings level).published ∨
    tail = (s.rings level).sender.shared.tail + 1

/-- From `s` on, after the events `before`, the worker takes the messages of the stream from the number `i` on, in
order and none left out; when `try_recv` finds nothing, it has taken all that are published; and `try_recv` lags
only when the next message has left the ring. -/
structure Follows (env : WorkerEnv) (cfg : ConfigWorker) (level : CommitmentLevel) (i : ℕ)
    (before : List WorkerEvent) (s : Worker) : Prop where
  inOrder : ∀ actions s' tr, run (step env cfg) s actions = .ok (s', tr) →
    (consumedFrom level tr).map some <+: ((storedItems (channelEvents level (before ++ tr))).drop i).map (·.data)
  complete : ∀ actions s' tr a s'' out, run (step env cfg) s actions = .ok (s', tr) →
    step env cfg s' a = .ok (s'', out) → .empty level ∈ out →
    i + (consumedFrom level tr).length = (s'.rings level).published
  lagged : ∀ actions s' tr a s'' out, run (step env cfg) s actions = .ok (s', tr) →
    step env cfg s' a = .ok (s'', out) → .lagged level ∈ out →
    ∃ item, (storedItems (channelEvents level (before ++ tr)))[i + (consumedFrom level tr).length]? = some item ∧
      item.pos < (s'.rings level).sender.head

/-- The events of a step that finds nothing, or lags. -/
theorem StreamStep.of_mem (h : StreamStep env s s' out) :
    (.empty level ∈ out → (s.rings level).sender.shared.tail < s.heads level) ∧
    (.lagged level ∈ out → ∃ tick, s.phase = .collect tick ∧ tick.reading = true ∧ tick.level = level ∧
      (((s.rings level).sender.shared.item (s.heads level)).pos ≠ s.heads level ∨
        ((s.rings level).sender.shared.item (s.heads level)).data = none)) := by
  cases h with
  | lagged tick hphase hreading hread =>
    refine ⟨by simp, fun hmem => ?_⟩
    obtain rfl : level = tick.level := by simpa using hmem
    exact ⟨tick, hphase, hreading, rfl, hread⟩
  | empty tick hphase hlt =>
    refine ⟨fun hmem => ?_, by simp⟩
    obtain rfl : level = tick.level := by simpa using hmem
    exact hlt
  | _ => simp

theorem Reads.follows {k start : ℕ} {before : List WorkerEvent} (h : Reads k level start before s [])
    (hinv : StreamsInv env k before s) : Follows env cfg level (start - (2 ^ k + 1)) before s := by
  have hrun : ∀ actions s' tr, run (Worker.step env cfg) s actions = .ok (s', tr) →
      StreamsInv env k (before ++ tr) s' ∧ Reads k level start before s' tr := by
    intro actions s' tr hrun
    refine run_induction (P := fun _ s' tr => StreamsInv env k (before ++ tr) s' ∧ Reads k level start before s' tr)
      ⟨by rw [List.append_nil]; exact hinv, h⟩ ?_ hrun
    rintro _ s₁ tr₁ a s₂ out - ⟨hinv₁, hreads₁⟩ hstep
    have hstream := streamStep hstep
    rw [← List.append_assoc]
    exact ⟨hinv₁.step hstream, hreads₁.step hinv₁ hstream⟩
  constructor
  · intro actions s' tr h'
    exact (hrun actions s' tr h').2.consumed
  · intro actions s' tr a s'' out h' hstep hmem
    obtain ⟨hinv', hreads⟩ := hrun actions s' tr h'
    exact hreads.empty hinv' ((streamStep hstep).of_mem.1 hmem)
  · intro actions s' tr a s'' out h' hstep hmem
    obtain ⟨hinv', hreads⟩ := hrun actions s' tr h'
    obtain ⟨tick, hphase, hreading, rfl, hread⟩ := (streamStep hstep).of_mem.2 hmem
    exact hreads.lagged hinv' (hinv'.reading tick hphase hreading) hread

/-- **The worker follows a stream** whose tail it starts at: from the message after the published ones, or from
the last of them. -/
theorem follows_of_startsAtTail {channel : ConfigChannelInner} {actions : List WorkerAction}
    (hrun : run (step env cfg) (.new cfg channel) actions = .ok (s₀, events))
    (hload : step env cfg s₀ .loadHead = .ok (s₁, [.started level])) (htail : StartsAtTail s₀ level) :
    ∃ i, (i = (s₀.rings level).published ∨ i + 1 = (s₀.rings level).published) ∧
      Follows env cfg level i (events ++ [.started level]) s₁ := by
  obtain ⟨k, hk⟩ := exists_nextPowerOfTwo channel.maxMessages
  have hinv := StreamsInv.run hk hrun
  have hinv₁ := hinv.step (streamStep hload)
  have hmask := (hinv.channels level).ring.mask
  have hpos := Nat.two_pow_pos k
  have hfirst : 2 ^ k ≤ (s₀.rings level).sender.shared.tail := by
    have hlen := (hinv.channels level).log_length
    cases hpushing : (s₀.rings level).pushing with
    | none =>
      have := (hinv.channels level).idle hpushing
      omega
    | some x => exact ((hinv.channels level).pushing x.1 x.2 hpushing).2.1
  have hpublished : (s₀.rings level).published = (s₀.rings level).sender.shared.tail - 2 ^ k := by
    rw [Channel.published, hmask]
    omega
  simp only [step] at hload
  split at hload
  · rename_i level' levels hphase
    cases hload
    have hhead : Function.update s₀.heads level (s₀.rings .processed).sender.shared.tail level =
        (s₀.rings .processed).sender.shared.tail := Function.update_self ..
    refine ⟨(s₀.rings .processed).sender.shared.tail - (2 ^ k + 1), ?_, Reads.follows ⟨?_, ?_, hhead, ?_, ?_⟩ hinv₁⟩
    · rcases htail with ⟨heq, hlt⟩ | heq <;> omega
    · intro levels' hl
      dsimp only at hl
      split at hl
      · cases hl
      · cases hl
        exact (List.nodup_cons.mp (hinv.heads _ hphase)).1
    · rcases htail with ⟨heq, hlt⟩ | heq <;> omega
    · refine hhead.le.trans ?_
      rcases htail with ⟨heq, hlt⟩ | heq
      · exact heq.le.trans (Nat.le_succ _)
      · exact heq.le
    · exact List.nil_prefix
  · cases hload

end Worker

namespace WorkerEvent

def isStarted (level : CommitmentLevel) : WorkerEvent → Bool
  | started l => l = level
  | _ => false

def isLagged (level : CommitmentLevel) : WorkerEvent → Bool
  | lagged l => l = level
  | _ => false

variable {level : CommitmentLevel} {e : WorkerEvent}

theorem isStarted_iff : e.isStarted level = true ↔ e = .started level := by
  cases e <;> simp [isStarted]

theorem isLagged_iff : e.isLagged level = true ↔ e = .lagged level := by
  cases e <;> simp [isLagged]

end WorkerEvent

/-- Messages without anything to read. -/
def WorkerEnv.sample : WorkerEnv where
  size := fun _ => 1
  hash := fun _ => 0
  encode := fun _ _ => ""
  accountKeys := fun _ => []
  txError := fun _ => some []
  failed := fun _ => false
  executedTransactionCount := fun _ => 0
  createdAt := fun _ => ⟨0, 0⟩
  processedBody := fun _ => []
  filter := fun _ _ _ _ _ => none

def ConfigWorker.sample : ConfigWorker := ⟨4, 4, 10, 10, 10, 100⟩

/-- One message of the processed stream before the start. -/
theorem Worker.follows_processed :
    ∃ (s₀ s₁ : Worker) (events : List WorkerEvent) (i : ℕ),
      run (Worker.step .sample .sample) (.new .sample ⟨2, 100⟩)
        [.ring .processed (.store 1 ⟨0, .slot ⟨1, .slotProcessed, none, []⟩⟩ none), .ring .processed .publish] =
          .ok (s₀, events) ∧
      Worker.step .sample .sample s₀ .loadHead = .ok (s₁, [.started .processed]) ∧
      Follows .sample .sample .processed i (events ++ [.started .processed]) s₁ := by
  obtain ⟨s₀, events, hrun, hcheck⟩ := exists_of_returns
    (x := run (Worker.step .sample .sample) (.new .sample ⟨2, 100⟩)
      [.ring .processed (.store 1 ⟨0, .slot ⟨1, .slotProcessed, none, []⟩⟩ none), .ring .processed .publish])
    (p := fun (s₀ : Worker) _ => 0 < (s₀.rings .processed).published &&
      returns (fun _ out => out.length = 1 && out.all (·.isStarted .processed))
        (Worker.step .sample .sample s₀ .loadHead)) (by decide +kernel)
  obtain ⟨hpublished, hload⟩ := Bool.and_eq_true_iff.mp hcheck
  obtain ⟨s₁, out, hload, hout⟩ := exists_of_returns hload
  obtain ⟨hone, hstarted⟩ := Bool.and_eq_true_iff.mp hout
  obtain ⟨e, rfl⟩ := List.length_eq_one_iff.mp (of_decide_eq_true hone)
  obtain rfl := WorkerEvent.isStarted_iff.mp (List.all_eq_true.mp hstarted e (List.mem_singleton_self e))
  obtain ⟨i, -, hfollows⟩ := Worker.follows_of_startsAtTail hrun hload
    (.inl ⟨rfl, of_decide_eq_true hpublished⟩)
  exact ⟨s₀, s₁, events, i, hrun, hload, hfollows⟩

/-- The worker starts before the first message, and its first `try_recv` lags. -/
theorem Worker.lags_without_messages :
    ∃ (s : Worker) (events : List WorkerEvent),
      run (Worker.step .sample .sample) (.new .sample ⟨2, 100⟩)
        [.loadHead, .loadHead, .loadHead, .collect, .load, .read] = .ok (s, events) ∧
      .lagged .processed ∈ events ∧ channelEvents .processed events = [] := by
  obtain ⟨s, events, hrun, hcheck⟩ := exists_of_returns
    (x := run (Worker.step .sample .sample) (.new .sample ⟨2, 100⟩)
      [.loadHead, .loadHead, .loadHead, .collect, .load, .read])
    (p := fun _ events => events.any (·.isLagged .processed) && (channelEvents .processed events).isEmpty)
    (by decide +kernel)
  obtain ⟨hlagged, hnone⟩ := Bool.and_eq_true_iff.mp hcheck
  obtain ⟨e, he, hkind⟩ := List.any_eq_true.mp hlagged
  obtain rfl := WorkerEvent.isLagged_iff.mp hkind
  exact ⟨s, events, hrun, he, List.isEmpty_iff.mp hnone⟩

end Richat
