import Richat.Channel.SubscribeSlot
import Richat.Storage.NodeView

/-!
# The streams of a node

`streamsView_run`: the three streams of a node are rings with the invariant of `ChannelInv`, over the
events of the process, and what a source event puts on them or in the journal is of its slot.
-/

namespace Richat

open Lib

/-! ### The slot of a source event -/

/-- A message on a stream or in the journal is of the slot. -/
def Effect.OfSlot (slot : Slot) : Effect → Prop
  | .ring _ t _ _ => t = slot
  | .writer (.pushMessage _ t _ _ _ _) => t = slot
  | _ => True

section OfSlot

variable {cfg : Config} {slot slotHead : ℕ}

theorem ofSlot_pushStored (l : List (CommitmentLevel × ParsedMessage)) : ∀ index,
    ∀ e ∈ (pushStored cfg slot slotHead index l).2, e.OfSlot slot := by
  induction l with
  | nil =>
    intro index e he
    cases he
  | cons p l ih =>
    intro index e he
    unfold pushStored at he
    dsimp only at he
    split at he
    · simp only [List.mem_cons] at he
      rcases he with rfl | rfl | he
      · rfl
      · rfl
      · exact ih _ e he
    · rcases List.mem_cons.mp he with rfl | he
      · rfl
      · exact ih _ e he

theorem ofSlot_route {cb : Option (Option BankId)} {st : PushState} {message : ParsedMessage} :
    ∀ e ∈ (st.route cfg slot slotHead cb message).2, e.OfSlot slot := by
  intro e he
  unfold PushState.route at he
  dsimp only at he
  split at he
  · simp only [List.mem_append, List.mem_cons] at he
    rcases he with he | rfl | he
    · exact ofSlot_pushStored _ _ e he
    · trivial
    · exact ofSlot_pushStored _ _ e he
  · rcases List.mem_append.mp he with he | he
    · exact ofSlot_pushStored _ _ e he
    · exact ofSlot_pushStored _ _ e he

theorem ofSlot_publish {cb : Option (Option BankId)} {st st' : PushState} {message : ParsedMessage}
    {eff : List Effect} (h : st.publish cfg slot slotHead cb message = .ok (st', eff)) :
    ∀ e ∈ eff, e.OfSlot slot := by
  unfold PushState.publish at h
  split at h
  · obtain ⟨-, rfl⟩ := Prod.ext_iff.mp (Except.ok.inj h)
    exact ofSlot_route
  · split at h
    · cases h
    · split at h
      · cases h
        intro e he
        split at he
        · rw [List.mem_singleton.mp he]
          trivial
        · cases he
      · obtain ⟨-, rfl⟩ := Prod.ext_iff.mp (Except.ok.inj h)
        exact ofSlot_route

theorem ofSlot_run_publish {cb : Option (Option BankId)} {l : List ParsedMessage} :
    ∀ {st st' : PushState} {eff : List Effect},
    run (PushState.publish cfg slot slotHead cb) st l = .ok (st', eff) → ∀ e ∈ eff, e.OfSlot slot := by
  induction l with
  | nil =>
    intro st st' eff h e he
    simp only [run_nil, Except.ok.injEq, Prod.mk.injEq] at h
    rw [← h.2] at he
    cases he
  | cons m l ih =>
    intro st st' eff h e he
    obtain ⟨st₁, eff₁, eff₂, h₁, h₂, rfl⟩ := run_cons_ok.mp h
    rcases List.mem_append.mp he with he | he
    · exact ofSlot_publish h₁ e he
    · exact ih h₂ e he

theorem ofSlot_trimMessages {first : Slot} {l : List (Σ _ : Slot, ReplayInfo)} :
    ∀ e ∈ Sender.trimMessages first l, e.OfSlot slot := by
  induction l with
  | nil =>
    intro e he
    cases he
  | cons p l ih =>
    intro e he
    unfold Sender.trimMessages at he
    split at he
    · rcases List.mem_cons.mp he with rfl | he
      · trivial
      · exact ih e he
    · cases he

/-- **The slot of a push.** -/
theorem ofSlot_push {s s' : Sender} {input : PushInput} {out : List Effect}
    (h : s.push cfg input = .ok (s', out)) : ∀ e ∈ out, e.OfSlot input.slot := by
  refine Sender.push_rule (P := fun _ out => ∀ e ∈ out, e.OfSlot input.slot)
    (L := fun _ eff _ => ∀ e ∈ eff, e.OfSlot input.slot) ?_ ?_ ?_ ?_ h
  · intro e he
    cases he
  · intro s₁ messages _ _ _
    constructor
    · intro _ e he
      cases he
    · intro _ e he
      cases he
  · intro st eff m ms st' eff' heff hstep e he
    rcases List.mem_append.mp he with he | he
    · exact heff e he
    · unfold PushState.pushMessage at hstep
      dsimp only at hstep
      split at hstep
      · cases hstep
      · split at hstep
        · cases hstep
        · rename_i hrun
          cases hstep
          rcases List.mem_cons.mp he with rfl | he
          · trivial
          · exact ofSlot_run_publish hrun e he
  · intro st eff heff e he
    rcases List.mem_append.mp he with he | he
    · exact heff e he
    · unfold PushState.finish Sender.retain at he
      dsimp only at he
      split at he
      · exact ofSlot_trimMessages e he
      · cases he

end OfSlot

/-! ### The rings -/

/-- What an event of the node is for the stream of a commitment. -/
def NodeEvent.channelEvent? (commitment : CommitmentLevel) : NodeEvent → Option ChannelEvent
  | .stored c item => if c = commitment then some (.stored item) else none
  | .epoch => some .epoch
  | _ => none

/-- The events of the stream of a commitment, since the process started. -/
def streamEvents (commitment : CommitmentLevel) (events : List NodeEvent) : List ChannelEvent :=
  (sinceStart events).filterMap (·.channelEvent? commitment)

/-- The streams after the events. -/
def StreamsView (cfg : ConfigNode) (k : ℕ) (events : List NodeEvent)
    (streams : CommitmentLevel → SenderShared) : Prop :=
  ∀ commitment, ChannelInv cfg.size k (streamEvents commitment events) ⟨streams commitment, none⟩

section Rings

variable {cfg : ConfigNode} {k : ℕ} {events out : List NodeEvent}
  {streams streams' : CommitmentLevel → SenderShared}

theorem streamEvents_append (commitment : CommitmentLevel) (h : Continues out) :
    streamEvents commitment (events ++ out) =
      streamEvents commitment events ++ out.filterMap (·.channelEvent? commitment) := by
  rw [streamEvents, sinceStart_append h, List.filterMap_append]
  rfl

/-- A push to a stream. -/
theorem ChannelInv.push {size : ParsedMessage → ℕ} {channelEvents : List ChannelEvent}
    {s s' : SenderShared} {slot : Slot} {message : ParsedMessage} {replayIndex : Option ℕ}
    (h : ChannelInv size k channelEvents ⟨s, none⟩)
    (hpush : s.push size slot message replayIndex = some s') :
    ChannelInv size k (channelEvents ++ [.stored (s.newItem slot message replayIndex)])
      ⟨s', none⟩ := by
  obtain ⟨acts, hrun⟩ := SenderShared.push_run hpush
  refine run_induction (P := fun _ c out => ChannelInv size k (channelEvents ++ out) c) ?_ ?_ hrun
  · rwa [List.append_nil]
  · intro is c tr i c' out _ hc hstep
    rw [← List.append_assoc]
    exact hc.step hstep

theorem streamsView_perform (h : StreamsView cfg k events streams) {effect : Effect}
    (hstep : Node.perform cfg streams effect = .ok (streams', out)) :
    StreamsView cfg k (events ++ out) streams' := by
  cases effect with
  | received sourceName message =>
    cases hstep
    rwa [List.append_nil]
  | replayFromSlot slot =>
    cases hstep
    rwa [List.append_nil]
  | writer command =>
    cases hstep
    intro commitment
    rw [streamEvents_append commitment fun e he => by rw [List.mem_singleton.mp he]; rfl]
    simpa [NodeEvent.channelEvent?] using h commitment
  | ring c slot message replayIndex =>
    simp only [Node.perform] at hstep
    split at hstep
    · cases hstep
    · rename_i stream' hpush
      cases hstep
      intro commitment
      rw [streamEvents_append commitment fun e he => by rw [List.mem_singleton.mp he]; rfl]
      by_cases hc : commitment = c
      · subst hc
        have hinv := (h commitment).push hpush
        simpa [NodeEvent.channelEvent?, SenderShared.newItem] using hinv
      · rw [Function.update_of_ne hc]
        simpa [NodeEvent.channelEvent?, Ne.symm hc] using h commitment

theorem streamsView_run_perform {effects : List Effect} :
    ∀ {events out : List NodeEvent} {streams streams' : CommitmentLevel → SenderShared},
    StreamsView cfg k events streams → run (Node.perform cfg) streams effects = .ok (streams', out) →
    StreamsView cfg k (events ++ out) streams' := by
  induction effects with
  | nil =>
    intro events out streams streams' h hrun
    simp only [run_nil, Except.ok.injEq, Prod.mk.injEq] at hrun
    obtain ⟨rfl, rfl⟩ := hrun
    rwa [List.append_nil]
  | cons effect effects ih =>
    intro events out streams streams' h hrun
    obtain ⟨streams₁, out₁, out₂, h₁, h₂, rfl⟩ := run_cons_ok.mp hrun
    rw [← List.append_assoc]
    exact ih (streamsView_perform h h₁) h₂

theorem streamsView_beginLiveEpoch (h : StreamsView cfg k events streams) (index : ℕ) :
    StreamsView cfg k (events ++ [.epoch]) fun c => (streams c).beginLiveEpoch index := by
  intro commitment
  rw [streamEvents_append commitment fun e he => by rw [List.mem_singleton.mp he]; rfl]
  exact (h commitment).beginLiveEpoch rfl

/-- Events that no stream sees. -/
theorem streamsView_append (h : StreamsView cfg k events streams) (hcont : Continues out)
    (hout : ∀ e ∈ out, ∀ commitment, e.channelEvent? commitment = none) :
    StreamsView cfg k (events ++ out) streams := by
  intro commitment
  rw [streamEvents_append commitment hcont,
    List.filterMap_eq_nil_iff.mpr fun e he => hout e he commitment, List.append_nil]
  exact h commitment

/-- The streams of a process that starts. -/
theorem streamsView_boot (hk : nextPowerOfTwo cfg.ring.maxMessages = 2 ^ k) (hasher : RandomState)
    (disk : Disk) (writer : SegmentWriter) (sender : Sender) (hown : sinceStart events = []) :
    StreamsView cfg k events (Node.boot cfg hasher disk writer sender).streams := by
  intro commitment
  rw [streamEvents, hown]
  unfold Node.boot
  simp only [hk]
  have hring : RingInv cfg.size k [] (.new (.new (2 ^ k)) (2 ^ k) cfg.ring.maxBytes) := .new
  exact ⟨⟨hring.mask, hring.keeps, hring.pos, hring.stale, hring.last, hring.bytesTotal⟩, .new,
    fun _ => rfl, fun slot removed h => by cases h⟩

/-- A step of a node. -/
theorem streamsView_step {s s' : Node} {action : NodeAction}
    (hk : nextPowerOfTwo cfg.ring.maxMessages = 2 ^ k) (h : StreamsView cfg k events s.streams)
    (hstep : Node.step cfg s action = .ok (s', out)) :
    StreamsView cfg k (events ++ out) s'.streams := by
  have hcollected : ∀ {input : CollectorInput} {queue : List WriterCommand},
      s.collected input queue cfg = .ok (s', out) → StreamsView cfg k (events ++ out) s'.streams := by
    intro input queue hstep
    unfold Node.collected at hstep
    split at hstep
    · cases hstep
    · cases hstep
      refine streamsView_append h ?_ ?_
      · intro e he
        obtain ⟨output, -, rfl⟩ := List.mem_map.mp he
        rfl
      · intro e he commitment
        obtain ⟨output, -, rfl⟩ := List.mem_map.mp he
        rfl
  cases action with
  | push input =>
    simp only [Node.step] at hstep
    split at hstep
    · cases hstep
    · split at hstep
      · cases hstep
      · split at hstep
        · cases hstep
        · rename_i hrun
          cases hstep
          exact streamsView_run_perform h hrun
  | beginLiveEpoch =>
    simp only [Node.step] at hstep
    split at hstep
    · cases hstep
    · cases hstep
      exact streamsView_beginLiveEpoch h _
  | close =>
    cases hstep
    rwa [List.append_nil]
  | collect =>
    simp only [Node.step] at hstep
    split at hstep
    · exact hcollected hstep
    · split at hstep
      · exact hcollected hstep
      · cases hstep
  | timeout => exact hcollected hstep
  | compressed i =>
    simp only [Node.step] at hstep
    split at hstep
    · cases hstep
    · cases hstep
      rwa [List.append_nil]
  | write =>
    simp only [Node.step] at hstep
    split at hstep
    · cases hstep
      rwa [List.append_nil]
    · split at hstep
      · cases hstep
      · cases hstep
        refine streamsView_append h ?_ ?_
        · intro e he
          rw [List.mem_singleton.mp he]
          rfl
        · intro e he commitment
          rw [List.mem_singleton.mp he]
          rfl
  | restart hasher =>
    simp only [Node.step] at hstep
    split at hstep
    · cases hstep
    · rename_i hstart
      cases hstep
      obtain ⟨catalog, writer, sender, -, -, rfl⟩ := Node.start_eq_ok hstart
      exact streamsView_boot hk _ _ _ _ (sinceStart_started _)

/-- **The streams after any run of a node.** -/
theorem streamsView_run {s : Node} {hasher : RandomState} {actions : List NodeAction}
    (hk : nextPowerOfTwo cfg.ring.maxMessages = 2 ^ k)
    (h : run (Node.step cfg) (Node.new cfg hasher) actions = .ok (s, events)) :
    StreamsView cfg k events s.streams :=
  run_induction (P := fun _ s events => StreamsView cfg k events s.streams)
    (streamsView_boot hk _ _ _ _ rfl) (fun _ _ _ _ _ _ _ hview hstep => streamsView_step hk hview hstep) h

end Rings

end Richat
