import Richat.Channel.Sender

/-!
# What a push can do

The inversion lemmas of `Sender.push`, stage by stage; no later proof unfolds a stage.

* `stream c effects` are the messages that effects put on the stream of a commitment;
* `MessageStep` and `StatusStep` say everything that one message of a push does to the sender and to
  the streams, by `pushMessage_message` and `pushMessage_status`;
* `push_cases` splits a push at its early returns, and `push_rule` is the induction rule of the loop
  over its messages.
-/

namespace Richat

open Lib

/-! ### Streams -/

/-- The message that an effect puts on the stream of a commitment. -/
def Effect.onStream (commitment : CommitmentLevel) : Effect → Option ParsedMessage
  | .ring c _ message _ => if c = commitment then some message else none
  | _ => none

/-- The messages that effects put on the stream of a commitment. -/
def stream (commitment : CommitmentLevel) (effects : List Effect) : List ParsedMessage :=
  effects.filterMap (Effect.onStream commitment)

def Effect.receivedMessage : Effect → Option ParsedMessage
  | .received _ message => some message
  | _ => none

/-- The messages past deduplication. -/
def received (effects : List Effect) : List ParsedMessage :=
  effects.filterMap Effect.receivedMessage

section Streams

variable {cfg : Config} {slot slotHead index : ℕ} {c : CommitmentLevel}

@[simp] theorem stream_nil : stream c [] = [] := rfl
@[simp] theorem received_nil : received [] = [] := rfl

@[simp] theorem stream_append (l l' : List Effect) :
    stream c (l ++ l') = stream c l ++ stream c l' :=
  List.filterMap_append

@[simp] theorem received_append (l l' : List Effect) :
    received (l ++ l') = received l ++ received l' :=
  List.filterMap_append

@[simp] theorem stream_ring (d : CommitmentLevel) (message : ParsedMessage) (r : Option ℕ)
    (l : List Effect) : stream c (.ring d slot message r :: l) =
      (if d = c then [message] else []) ++ stream c l := by
  by_cases h : d = c <;> simp [stream, Effect.onStream, h]

@[simp] theorem stream_writer (command : WriterCommand) (l : List Effect) :
    stream c (.writer command :: l) = stream c l := rfl

@[simp] theorem stream_received (sourceName : SourceName) (message : ParsedMessage)
    (l : List Effect) : stream c (.received sourceName message :: l) = stream c l := rfl

@[simp] theorem stream_replayFromSlot (l : List Effect) :
    stream c (.replayFromSlot slot :: l) = stream c l := rfl

@[simp] theorem received_ring (d : CommitmentLevel) (message : ParsedMessage) (r : Option ℕ)
    (l : List Effect) : received (.ring d slot message r :: l) = received l := rfl

@[simp] theorem received_writer (command : WriterCommand) (l : List Effect) :
    received (.writer command :: l) = received l := rfl

@[simp] theorem received_received (sourceName : SourceName) (message : ParsedMessage)
    (l : List Effect) : received (.received sourceName message :: l) = message :: received l := rfl

@[simp] theorem received_replayFromSlot (l : List Effect) :
    received (.replayFromSlot slot :: l) = received l := rfl

/-- The part of a list of publications that is for one commitment. -/
def onCommitment (c : CommitmentLevel) (l : List (CommitmentLevel × ParsedMessage)) :
    List ParsedMessage :=
  l.filterMap fun p => if p.1 = c then some p.2 else none

@[simp] theorem onCommitment_nil : onCommitment c [] = [] := rfl

@[simp] theorem onCommitment_append (l l' : List (CommitmentLevel × ParsedMessage)) :
    onCommitment c (l ++ l') = onCommitment c l ++ onCommitment c l' :=
  List.filterMap_append

@[simp] theorem onCommitment_cons (p : CommitmentLevel × ParsedMessage)
    (l : List (CommitmentLevel × ParsedMessage)) :
    onCommitment c (p :: l) = (if p.1 = c then [p.2] else []) ++ onCommitment c l := by
  by_cases h : p.1 = c <;> simp [onCommitment, h]

@[simp] theorem onCommitment_map (d : CommitmentLevel) (l : List ParsedMessage) :
    onCommitment c (l.map (d, ·)) = if d = c then l else [] := by
  by_cases h : d = c <;> simp [onCommitment, h]

theorem stream_pushStored (l : List (CommitmentLevel × ParsedMessage)) :
    ∀ index, stream c (pushStored cfg slot slotHead index l).2 = onCommitment c l := by
  induction l with
  | nil => intro index; rfl
  | cons p l ih =>
    intro index
    obtain ⟨d, message⟩ := p
    unfold pushStored
    dsimp only
    split <;> simp [ih]

theorem received_pushStored (l : List (CommitmentLevel × ParsedMessage)) :
    ∀ index, received (pushStored cfg slot slotHead index l).2 = [] := by
  induction l with
  | nil => intro index; rfl
  | cons p l ih =>
    intro index
    obtain ⟨d, message⟩ := p
    unfold pushStored
    dsimp only
    split <;> simp [ih]

end Streams

/-! ### One message on its way to the streams -/

/-- Whether the message was durable at the start. -/
def ReplayInfo.knows (hasher : RandomState) (replay : ReplayInfo)
    (message : ParsedMessage) : Bool :=
  match replay.messages with
  | none => false
  | some messages =>
    match message.getId hasher with
    | .error _ => false
    | .ok id => (messages id).isSome

theorem ReplayInfo.knows_of_none {hasher : RandomState} {replay : ReplayInfo}
    (h : replay.messages = none) (message : ParsedMessage) :
    replay.knows hasher message = false := by
  unfold knows
  rw [h]

namespace PushState

variable {cfg : Config} {slot slotHead : ℕ} {cb : Option (Option BankId)} {st st' : PushState}
  {message : ParsedMessage} {eff : List Effect} {c : CommitmentLevel}

variable (cfg slot slotHead cb st) in
theorem stream_route (message : ParsedMessage) (c : CommitmentLevel) : stream c (st.route cfg slot slotHead cb message).2 =
    onCommitment c (promoted cfg st.sender slot cb message ++
      drained cfg st.sender slot cb message) := by
  unfold route
  dsimp only
  split <;> simp [stream_pushStored]

theorem received_route : received (st.route cfg slot slotHead cb message).2 = [] := by
  unfold route
  dsimp only
  split <;> simp [received_pushStored]

variable (cfg slot slotHead cb st) in
theorem route_of_isFinalized (h : message.isFinalized = true) : ∃ index,
    (st.route cfg slot slotHead cb message).1 =
      { st with
        sender := { st.sender.finalize cfg slot cb with index }
        cleanAfterFinalized := true } := by
  unfold route
  dsimp only
  rw [if_pos h]
  exact ⟨_, rfl⟩

variable (cfg slot slotHead cb st) in
theorem route_of_not_isFinalized (h : message.isFinalized = false) : ∃ index,
    (st.route cfg slot slotHead cb message).1 = { st with sender := { st.sender with index } } := by
  unfold route
  dsimp only
  rw [if_neg (by simp [h])]
  exact ⟨_, rfl⟩

/-- A message is left out because its id is in the journal, or takes its route; only the ids of the
replay info change on the way. -/
theorem publish_cases (h : st.publish cfg slot slotHead cb message = .ok (st', eff)) :
    (st' = st ∧ (∀ c, stream c eff = []) ∧ received eff = [] ∧
      st.replay.knows cfg.hasher message) ∨
    ∃ replay, st.replay.knows cfg.hasher message = false ∧ replay.head = st.replay.head ∧
      (st.replay.messages = none → replay.messages = none) ∧
      st' = ({ st with replay }.route cfg slot slotHead cb message).1 ∧
      eff = ({ st with replay }.route cfg slot slotHead cb message).2 := by
  unfold publish at h
  unfold ReplayInfo.knows
  cases hmessages : st.replay.messages with
  | none =>
    simp only [hmessages] at h
    exact Or.inr ⟨st.replay, rfl, rfl, fun _ => hmessages, Prod.ext_iff.mp (Except.ok.inj h).symm⟩
  | some messages =>
    simp only [hmessages] at h
    cases hid : message.getId cfg.hasher with
    | error e =>
      simp only [hid] at h
      cases h
    | ok id =>
      simp only [hid] at h
      cases hindex : messages id with
      | some index =>
        simp only [hindex] at h
        cases h
        refine Or.inl ⟨rfl, fun c => ?_, ?_, by simp [hindex]⟩ <;> split <;> rfl
      | none =>
        simp only [hindex] at h
        exact Or.inr ⟨⟨st.replay.head, some (Function.update messages id (some st.sender.index))⟩,
          by simp [hindex], rfl, fun e => (nomatch e), Prod.ext_iff.mp (Except.ok.inj h).symm⟩

end PushState

/-! ### One message of a push -/

/-- What a push does with a message that is no status: `block` is the `Block` it completes, `kept`
are the two without those that were durable at the start. -/
structure MessageStep (cfg : Config) (slot : Slot) (st : PushState) (message : Message)
    (st' : PushState) (eff : List Effect) (info : SlotInfo) (block : Option ParsedMessage)
    (kept : List ParsedMessage) : Prop where
  receive : (st.slotInfo slot).getBlockMessage ⟨st.sender.nextArc, message⟩
    (st.sender.nextArc + 1) = .ok (info, block)
  kept_sublist : kept.Sublist (⟨st.sender.nextArc, message⟩ :: block.toList)
  kept_fresh : st.replay.messages = none →
    kept = ⟨st.sender.nextArc, message⟩ :: block.toList ∧ st'.replay.messages = none
  slots : st'.sender.slots = st.sender.slots.insert slot info
  dedup : st'.sender.dedup = st.sender.dedup
  slotFinalized : st'.sender.slotFinalized = st.sender.slotFinalized
  slotDropped : st'.sender.slotDropped = st.sender.slotDropped
  nextArc : st'.sender.nextArc = st.sender.nextArc + 2
  replay : st'.sender.replay = st.sender.replay
  clean : st'.cleanAfterFinalized = st.cleanAfterFinalized
  received : received eff = [⟨st.sender.nextArc, message⟩]
  processed : stream .processed eff = kept
  confirmed : stream .confirmed eff = kept.filter fun m =>
    !m.message.isEntryUpdateParent ∧ info.confirmedBank = some m.bankId ∧ cfg.confirmed
  finalized : stream .finalized eff = []

/-- What a push does with a status, `kept` says that it was not durable at the start. -/
structure StatusStep (cfg : Config) (slot : Slot) (st : PushState) (msg : MessageSlot)
    (st' : PushState) (eff : List Effect) (info : SlotInfo)
    (selected : Option (Option BankId)) (kept : Bool) : Prop where
  receive : (st.slotInfo slot).commit msg.status (Message.slot msg).bankId = (info, selected)
  kept_eq : kept = !st.replay.knows cfg.hasher ⟨st.sender.nextArc, .slot msg⟩
  kept_fresh : st.replay.messages = none → kept = true ∧ st'.replay.messages = none
  slots : st'.sender.slots =
    if kept ∧ msg.status = .slotFinalized ∧ cfg.finalized
    then (st.sender.slots.insert slot info).erase slot else st.sender.slots.insert slot info
  dedup : st'.sender.dedup = st.sender.dedup
  slotFinalized : st'.sender.slotFinalized =
    if kept ∧ msg.status = .slotFinalized then slot else st.sender.slotFinalized
  slotDropped : st'.sender.slotDropped = st.sender.slotDropped
  nextArc : st'.sender.nextArc = st.sender.nextArc + 2
  replay : st'.sender.replay = st.sender.replay
  clean : st'.cleanAfterFinalized =
    (st.cleanAfterFinalized || (kept && decide (msg.status = .slotFinalized)))
  received : received eff = [⟨st.sender.nextArc, .slot msg⟩]
  processed : stream .processed eff = if kept then [⟨st.sender.nextArc, .slot msg⟩] else []
  confirmed : stream .confirmed eff =
    if kept ∧ cfg.confirmed then ⟨st.sender.nextArc, .slot msg⟩ ::
      (if msg.status = .slotConfirmed then (selected.map info.getMessages).getD [] else [])
    else []
  finalized : stream .finalized eff =
    if kept ∧ cfg.finalized then ⟨st.sender.nextArc, .slot msg⟩ ::
      (if msg.status = .slotFinalized then (selected.map info.getMessages).getD [] else [])
    else []

/-- A message that is no status puts itself and its `Block` on the streams. -/
theorem MessageStep.mem_stream {cfg : Config} {slot : Slot} {st st' : PushState} {message : Message}
    {eff : List Effect} {info : SlotInfo} {block : Option ParsedMessage} {kept : List ParsedMessage}
    (h : MessageStep cfg slot st message st' eff info block kept) {c : CommitmentLevel}
    {m : ParsedMessage} (hm : m ∈ stream c eff) :
    m = ⟨st.sender.nextArc, message⟩ ∨ m ∈ block := by
  have hkept : m ∈ kept → m = ⟨st.sender.nextArc, message⟩ ∨ m ∈ block := by
    intro hm
    exact (List.mem_cons.mp (h.kept_sublist.subset hm)).imp_right Option.mem_toList.mp
  cases c with
  | processed => exact hkept (h.processed ▸ hm)
  | confirmed => exact hkept (List.mem_of_mem_filter (h.confirmed ▸ hm))
  | finalized =>
    rw [h.finalized] at hm
    cases hm

/-- A status puts itself and the messages of the selected bank on the streams. -/
theorem StatusStep.mem_stream {cfg : Config} {slot : Slot} {st st' : PushState} {msg : MessageSlot}
    {eff : List Effect} {info : SlotInfo} {selected : Option (Option BankId)} {kept : Bool}
    (h : StatusStep cfg slot st msg st' eff info selected kept) {c : CommitmentLevel}
    {m : ParsedMessage} (hm : m ∈ stream c eff) :
    m = ⟨st.sender.nextArc, .slot msg⟩ ∨ ∃ bankId ∈ selected, m ∈ info.getMessages bankId := by
  have hselected : ∀ (b : Prop) [Decidable b] (p : Prop) [Decidable p],
      m ∈ (if b then ⟨st.sender.nextArc, .slot msg⟩ ::
        (if p then (selected.map info.getMessages).getD [] else []) else []) →
      m = ⟨st.sender.nextArc, .slot msg⟩ ∨ ∃ bankId ∈ selected, m ∈ info.getMessages bankId := by
    intro b _ p _ hm
    split at hm
    · rcases List.mem_cons.mp hm with rfl | hm
      · exact Or.inl rfl
      · split at hm
        · cases selected with
          | none => cases hm
          | some bankId => exact Or.inr ⟨bankId, rfl, hm⟩
        · cases hm
    · cases hm
  cases c with
  | processed =>
    rw [h.processed] at hm
    split at hm
    · exact Or.inl (List.mem_singleton.mp hm)
    · cases hm
  | confirmed => exact hselected _ _ (h.confirmed ▸ hm)
  | finalized => exact hselected _ _ (h.finalized ▸ hm)

namespace PushState

section

variable {cfg : Config} {slot : Slot} {sourceName : SourceName} {st st' : PushState}
  {message : Message} {eff : List Effect}

theorem promoted_eq_of_not_slot (cfg : Config) (cb : Option (Option BankId)) {message : ParsedMessage} (h : message.message.isSlot = false)
    {s : Sender} {info : SlotInfo}
    (hinfo : s.slots.get? slot = some info) : promoted cfg s slot cb message =
      if !message.message.isEntryUpdateParent ∧ info.confirmedBank = some message.bankId ∧
        cfg.confirmed then [(.confirmed, message)] else [] := by
  obtain ⟨arc, message⟩ := message
  cases message <;> simp_all [promoted, Message.isSlot, Sender.isConfirmedBank]

theorem isFinalized_of_not_slot {message : ParsedMessage} (h : message.message.isSlot = false) :
    message.isFinalized = false := by
  obtain ⟨arc, message⟩ := message
  cases message <;> simp_all [ParsedMessage.isFinalized, Message.isSlot]

/-- The streams and the sender after a message that is no status, stored before in its slot. -/
theorem publish_message {st st' : PushState} {slotHead : ℕ} {cb : Option (Option BankId)}
    {message : ParsedMessage} {info : SlotInfo}
    (hslot : message.message.isSlot = false) (hinfo : st.sender.slots.get? slot = some info)
    (h : st.publish cfg slot slotHead cb message = .ok (st', eff)) :
    ∃ kept : List ParsedMessage, kept.Sublist [message] ∧
      (st.replay.messages = none → kept = [message] ∧ st'.replay.messages = none) ∧
      (∃ index, st'.sender = { st.sender with index }) ∧
      st'.cleanAfterFinalized = st.cleanAfterFinalized ∧ received eff = [] ∧
      stream .processed eff = kept ∧ stream .finalized eff = [] ∧
      stream .confirmed eff = kept.filter fun m =>
        !m.message.isEntryUpdateParent ∧ info.confirmedBank = some m.bankId ∧ cfg.confirmed := by
  rcases publish_cases h with ⟨rfl, hstream, hrec, hknows⟩ | ⟨replay, -, hhead, hnone, rfl, rfl⟩
  · refine ⟨[], List.nil_sublist _, fun hr => ?_, ⟨_, rfl⟩, rfl, hrec, ?_, ?_, ?_⟩
    · rw [ReplayInfo.knows_of_none hr] at hknows; cases hknows
    all_goals simp [hstream]
  · have hfin := isFinalized_of_not_slot hslot
    obtain ⟨index, hst⟩ := route_of_not_isFinalized cfg slot slotHead cb
      { st with replay } hfin
    have hprom := promoted_eq_of_not_slot cfg cb hslot hinfo
    refine ⟨[message], List.Sublist.refl _, fun hr => ⟨rfl, ?_⟩, ⟨index, by rw [hst]⟩, by rw [hst],
      received_route, ?_, ?_, ?_⟩
    · rw [hst]
      simpa [hr] using hnone
    all_goals
      rw [stream_route, hprom]
      unfold drained
      simp only [hfin]
      split <;> simp_all

/-- What a message of a push does that is no status. -/
theorem pushMessage_message (hslot : message.isSlot = false)
    (h : st.pushMessage cfg slot sourceName message = .ok (st', eff)) :
    ∃ info block kept, MessageStep cfg slot st message st' eff info block kept := by
  unfold pushMessage at h
  dsimp only at h
  split at h
  · cases h
  · rename_i info cb block heq
    obtain ⟨info', block', hget, heq⟩ := (SlotInfo.receive_message hslot).mp heq
    cases heq
    split at h
    · cases h
    · rename_i st₂ eff₂ hrun
      cases h
      have hinfo : (st.setSlotInfo slot info).sender.slots.get? slot = some info :=
        SortedMap.get?_insert_self ..
      cases hblock : block with
      | none =>
        subst hblock
        obtain ⟨kept, hsub, hfresh, ⟨index, hst⟩, hclean, hrec, hproc, hfin, hconf⟩ :=
          publish_message hslot hinfo (run_singleton.mp hrun)
        refine ⟨info, none, kept, ?_⟩
        constructor <;> simp_all [setSlotInfo]
      | some b =>
        subst hblock
        have hb : b.message.isSlot = false := by
          obtain ⟨msg, rfl⟩ := SlotInfo.getBlockMessage_block hget b rfl
          rfl
        obtain ⟨st₁, eff₁, eff₃, h₁, h₂, rfl⟩ := run_cons_ok.mp hrun
        obtain ⟨kept, hsub, hfresh, ⟨index, hst⟩, hclean, hrec, hproc, hfin, hconf⟩ :=
          publish_message hslot hinfo h₁
        have hinfo₁ : st₁.sender.slots.get? slot = some info := by rw [hst]; exact hinfo
        obtain ⟨kept', hsub', hfresh', ⟨index', hst'⟩, hclean', hrec', hproc', hfin', hconf'⟩ :=
          publish_message hb hinfo₁ (run_singleton.mp h₂)
        refine ⟨info, some b, kept ++ kept', ?_⟩
        have hsub₂ : (kept ++ kept').Sublist (⟨st.sender.nextArc, message⟩ :: [b]) :=
          hsub.append hsub'
        constructor <;> simp_all [setSlotInfo]

theorem onCommitment_status {s : Sender} {cb : Option (Option BankId)} {arc : ℕ}
    {msg : MessageSlot} (c : CommitmentLevel) :
    onCommitment c (promoted cfg s slot cb ⟨arc, .slot msg⟩ ++ drained cfg s slot cb ⟨arc, .slot msg⟩) =
    match c with
    | .processed => [⟨arc, .slot msg⟩]
    | .confirmed => if cfg.confirmed then ⟨arc, .slot msg⟩ ::
        (if msg.status = .slotConfirmed then s.bankMessages slot cb else []) else []
    | .finalized => if cfg.finalized then ⟨arc, .slot msg⟩ ::
        (if msg.status = .slotFinalized then s.bankMessages slot cb else []) else [] := by
  unfold promoted drained
  cases hc : cfg.confirmed <;> cases hf : cfg.finalized <;> cases c <;>
    by_cases h₁ : msg.status = .slotConfirmed <;> by_cases h₂ : msg.status = .slotFinalized <;>
    simp [h₁, h₂, ParsedMessage.isFinalized]

/-- What a status does. -/
theorem pushMessage_status {msg : MessageSlot}
    (h : st.pushMessage cfg slot sourceName (.slot msg) = .ok (st', eff)) :
    ∃ info selected kept, StatusStep cfg slot st msg st' eff info selected kept := by
  unfold pushMessage at h
  dsimp only [SlotInfo.receive] at h
  obtain ⟨⟨info, selected⟩, hcommit⟩ : ∃ p, (st.slotInfo slot).commit msg.status
    (Message.slot msg).bankId = p := ⟨_, rfl⟩
  rw [show ParsedMessage.bankId ⟨st.sender.nextArc, .slot msg⟩ = (Message.slot msg).bankId from rfl,
    hcommit] at h
  dsimp only at h
  split at h
  · cases h
  · rename_i st₂ eff₂ hrun
    cases h
    have hbank : (st.setSlotInfo slot info).sender.bankMessages slot selected =
        (selected.map info.getMessages).getD [] := by
      have hinfo : (st.setSlotInfo slot info).sender.slots.get? slot = some info :=
        SortedMap.get?_insert_self ..
      unfold Sender.bankMessages
      rw [hinfo]
      cases selected <;> rfl
    rcases publish_cases (run_singleton.mp hrun) with
      ⟨rfl, hstream, hrec, hknows⟩ | ⟨replay, hknows, hhead, hnone, rfl, rfl⟩
    · have hsome : st.replay.messages ≠ none := fun e => by
        rw [setSlotInfo, ReplayInfo.knows_of_none e] at hknows
        cases hknows
      exact ⟨info, selected, false, by constructor <;> simp_all [setSlotInfo]⟩
    · have hstream : ∀ c, _ := fun c => (stream_route cfg slot (st.slotInfo slot).index selected
        { st.setSlotInfo slot info with replay } ⟨st.sender.nextArc, .slot msg⟩ c).trans
          ((onCommitment_status c).trans (by rw [hbank]))
      have hnone' : st.replay.messages = none → replay.messages = none := hnone
      clear hrun hnone
      refine ⟨info, selected, true, ?_⟩
      by_cases hfin : msg.status = .slotFinalized
      · have hsel : selected.isSome := by
          rw [hfin] at hcommit
          cases hcommit
          rfl
        obtain ⟨index, hst⟩ := route_of_isFinalized cfg slot
          (st.slotInfo slot).index selected { st.setSlotInfo slot info with replay }
          (show ParsedMessage.isFinalized ⟨st.sender.nextArc, .slot msg⟩ = _ by simp [ParsedMessage.isFinalized, hfin])
        constructor <;> simp_all [setSlotInfo, received_route, Sender.finalize]
      · obtain ⟨index, hst⟩ := route_of_not_isFinalized cfg slot
          (st.slotInfo slot).index selected { st.setSlotInfo slot info with replay }
          (show ParsedMessage.isFinalized ⟨st.sender.nextArc, .slot msg⟩ = _ by simp [ParsedMessage.isFinalized, hfin])
        constructor <;> simp_all [setSlotInfo, received_route]

/-- A message gets to the streams if there is no journal to look it up in, or if it has an id. -/
def Identified (st : PushState) (message : ParsedMessage) : Prop :=
  st.replay.messages = none ∨ ∃ inputs, message.idInputs = .ok inputs

theorem publish_ok {parsed : ParsedMessage} (cfg : Config) (slot slotHead : ℕ)
    (cb : Option (Option BankId)) (h : st.Identified parsed) :
    ∃ st' eff, st.publish cfg slot slotHead cb parsed = .ok (st', eff) ∧
      (st.replay.messages = none → st'.replay.messages = none) := by
  obtain ⟨st', eff, hpublish⟩ : ∃ st' eff, st.publish cfg slot slotHead cb parsed = .ok (st', eff) := by
    unfold publish
    split
    · exact ⟨_, _, rfl⟩
    · rename_i messages hmessages
      obtain ⟨inputs, hinputs⟩ := h.resolve_left (by rw [hmessages]; exact Option.some_ne_none _)
      have hid : parsed.getId cfg.hasher = .ok (cfg.hasher inputs) := by
        rw [ParsedMessage.getId, hinputs]
      rw [hid]
      dsimp only
      split <;> exact ⟨_, _, rfl⟩
  refine ⟨st', eff, hpublish, fun hnone => ?_⟩
  rcases publish_cases hpublish with ⟨rfl, _⟩ | ⟨replay, _, _, hnone', rfl, _⟩
  · exact hnone
  · have hreplay : ({ st with replay }.route cfg slot slotHead cb parsed).1.replay = replay := by
      unfold route
      dsimp only
      split <;> rfl
    rw [hreplay]
    exact hnone' hnone

theorem run_publish_ok (cfg : Config) (slot slotHead : ℕ) (cb : Option (Option BankId)) :
    ∀ (messages : List ParsedMessage) {st : PushState}, (∀ message ∈ messages, st.Identified message) →
      ∃ st' eff, run (publish cfg slot slotHead cb) st messages = .ok (st', eff) ∧
        (st.replay.messages = none → st'.replay.messages = none)
  | [], st, _ => ⟨st, [], rfl, id⟩
  | message :: messages, st, h => by
    obtain ⟨st₁, eff₁, h₁, hnone₁⟩ := publish_ok cfg slot slotHead cb (h message List.mem_cons_self)
    have hrest : ∀ m ∈ messages, st₁.Identified m :=
      fun m hm => (h m (List.mem_cons_of_mem _ hm)).imp_left hnone₁
    obtain ⟨st₂, eff₂, h₂, hnone₂⟩ := run_publish_ok cfg slot slotHead cb messages hrest
    exact ⟨st₂, eff₁ ++ eff₂, run_cons_ok.mpr ⟨st₁, eff₁, eff₂, h₁, h₂, rfl⟩, fun h => hnone₂ (hnone₁ h)⟩

/-- A message is pushed if its slot takes it. -/
theorem pushMessage_ok (cfg : Config) (sourceName : SourceName)
    (hid : st.Identified ⟨st.sender.nextArc, message⟩)
    (hreceive : ∃ r, (st.slotInfo slot).receive ⟨st.sender.nextArc, message⟩
      (st.sender.nextArc + 1) = .ok r) :
    ∃ st' eff, st.pushMessage cfg slot sourceName message = .ok (st', eff) ∧
      (st.replay.messages = none → st'.replay.messages = none) := by
  obtain ⟨⟨info, cb, block⟩, hreceive⟩ := hreceive
  unfold pushMessage
  dsimp only
  rw [hreceive]
  dsimp only
  -- a `Block` has an id
  have hids : ∀ m ∈ ⟨st.sender.nextArc, message⟩ :: block.toList,
      (st.setSlotInfo slot info).Identified m := by
    intro m hm
    rcases List.mem_cons.mp hm with rfl | hm
    · exact hid
    · obtain ⟨msg, rfl⟩ := SlotInfo.receive_block hreceive m (by simpa using hm)
      exact Or.inr ⟨_, rfl⟩
  obtain ⟨st', eff, hrun, hnone⟩ := run_publish_ok cfg slot (st.slotInfo slot).index cb _ hids
  rw [hrun]
  exact ⟨_, _, rfl, hnone⟩

end

end PushState

/-! ### The end of a push -/

section

variable {cfg : Config} {slot : Slot} {st : PushState} {c : CommitmentLevel}

theorem stream_trimMessages (first : Slot) (l : List (Σ _ : Slot, ReplayInfo)) :
    stream c (Sender.trimMessages first l) = [] ∧ received (Sender.trimMessages first l) = [] := by
  induction l with
  | nil => exact ⟨rfl, rfl⟩
  | cons e l ih =>
    unfold Sender.trimMessages
    split
    · exact ih
    · exact ⟨rfl, rfl⟩

@[simp] theorem stream_finish : stream c (st.finish cfg slot).2 = [] := by
  unfold PushState.finish Sender.retain
  dsimp only
  split
  · exact (stream_trimMessages _ _).1
  · rfl

@[simp] theorem received_finish : received (st.finish cfg slot).2 = [] := by
  unfold PushState.finish Sender.retain
  dsimp only
  split
  · exact (stream_trimMessages (c := .processed) _ _).2
  · rfl

/-- The sender before slots are dropped. -/
def PushState.cleaned (st : PushState) : Sender :=
  if st.cleanAfterFinalized then st.sender.cleanFinalized else st.sender

/-- The end of a push; of the replay map it says only what is left in it. -/
structure FinishStep (cfg : Config) (slot : Slot) (st : PushState) (s' : Sender) : Prop where
  slots : s'.slots = st.cleaned.slots.popExcess cfg.maxUnfinalizedSlots
  dedup : s'.dedup = st.cleaned.dedup.popExcess cfg.maxUnfinalizedSlots
  slotFinalized : s'.slotFinalized = st.sender.slotFinalized
  slotDropped : s'.slotDropped =
    (st.cleaned.slots.excess cfg.maxUnfinalizedSlots).foldl max st.sender.slotDropped
  nextArc : s'.nextArc = st.sender.nextArc
  replay : ∀ k info, s'.replay.get? k = some info →
    info = st.replay ∨ st.sender.replay.get? k = some info

variable (cfg slot st) in
theorem finishStep : FinishStep cfg slot st (st.finish cfg slot).1 := by
  have hinsert : ∀ k info, (st.sender.replay.insert slot st.replay).get? k = some info →
      info = st.replay ∨ st.sender.replay.get? k = some info := by
    intro k info h
    rw [SortedMap.get?_insert] at h
    split at h
    · exact Or.inl (Option.some.inj h).symm
    · exact Or.inr h
  have hpop : ∀ first k info, ((st.sender.replay.insert slot st.replay).popWhile
      fun j => decide (j < first)).get? k = some info →
      info = st.replay ∨ st.sender.replay.get? k = some info := by
    intro first k info h
    rw [SortedMap.get?_popWhile _ (fun a b hab hb => by simp at hb ⊢; order)] at h
    split at h
    · cases h
    · exact hinsert k info h
  unfold PushState.finish Sender.retain
  dsimp only
  cases hclean : st.cleanAfterFinalized <;> cases hstorage : cfg.storage.isSome <;>
    constructor <;>
    simp [PushState.cleaned, hclean, Sender.dropUnfinalized, Sender.cleanFinalized]
  all_goals exact fun k info h => hpop _ k info h

end

/-! ### A whole push -/

namespace Sender

variable {cfg : Config} {s s' : Sender} {input : PushInput} {out : List Effect}

theorem dedupMessage_cases {messages : List Message} {s₁ : Sender}
    (h : s.dedupMessage input = .ok (s₁, messages)) :
    (input.dedupRequired = false ∧ s₁ = s ∧ messages = [input.message]) ∨
    (input.dedupRequired ∧ ∃ dedup, ((s.dedup.get? input.slot).getD .default).push input.sourceName
        input.message = .ok (dedup, messages) ∧
      s₁ = { s with dedup := s.dedup.insert input.slot dedup }) := by
  unfold dedupMessage at h
  split at h
  · rename_i hdedup
    refine Or.inr ⟨hdedup, ?_⟩
    dsimp only at h
    split at h
    · cases h
    · rename_i dedup messages heq
      cases h
      exact ⟨dedup, heq, rfl⟩
  · rename_i hdedup
    cases h
    exact Or.inl ⟨by simpa using hdedup, rfl, rfl⟩

theorem dedupMessage_ok {messages : List Message} {dedup : DedupInfo}
    (hdedup : input.dedupRequired)
    (h : ((s.dedup.get? input.slot).getD .default).push input.sourceName input.message =
      .ok (dedup, messages)) :
    s.dedupMessage input = .ok ({ s with dedup := s.dedup.insert input.slot dedup }, messages) := by
  unfold dedupMessage
  rw [if_pos hdedup]
  dsimp only
  rw [h]

/-- The ways of a push: stopped at the door, stopped by deduplication, or a loop over the messages
that deduplication let through. -/
theorem push_cases (h : s.push cfg input = .ok (s', out)) :
    ((input.slot ≤ s.floor ∨ s.isCleared input.message) ∧ s' = s ∧ out = []) ∨
    (s.floor < input.slot ∧ s.isCleared input.message = false ∧
      ∃ s₁ messages, s.dedupMessage input = .ok (s₁, messages) ∧
        ((messages = [] ∧ s' = s₁ ∧ out = []) ∨
        (messages ≠ [] ∧ ∃ st effects,
          run (PushState.pushMessage cfg input.slot input.sourceName)
            ⟨s₁, (s₁.replay.get? input.slot).getD (.new s₁.index), false⟩ messages =
              .ok (st, effects) ∧
          s' = (st.finish cfg input.slot).1 ∧
          out = effects ++ (st.finish cfg input.slot).2))) := by
  unfold push at h
  split at h
  · rename_i hfloor
    cases h
    exact Or.inl ⟨Or.inl hfloor, rfl, rfl⟩
  · rename_i hfloor
    split at h
    · rename_i hcleared
      cases h
      exact Or.inl ⟨Or.inr hcleared, rfl, rfl⟩
    · rename_i hcleared
      refine Or.inr ⟨Nat.lt_of_not_le hfloor, by simpa using hcleared, ?_⟩
      split at h
      · cases h
      · rename_i s₁ messages hdedup
        refine ⟨s₁, messages, hdedup, ?_⟩
        split at h
        · rename_i hempty
          cases h
          exact Or.inl ⟨List.isEmpty_iff.mp hempty, rfl, rfl⟩
        · rename_i hempty
          dsimp only at h
          split at h
          · cases h
          · rename_i st effects hrun
            cases h
            exact Or.inr ⟨fun e => hempty (List.isEmpty_iff.mpr e), st, effects, hrun, rfl, rfl⟩

/-- **The rule of a push.** `P` speaks about the sender and the effects of this push so far, `L`
about the locals of the loop and the messages that are left. -/
theorem push_rule {P : Sender → List Effect → Prop}
    {L : PushState → List Effect → List Message → Prop}
    (skip : P s [])
    (dedup : ∀ s₁ messages, s.floor < input.slot → s.isCleared input.message = false →
      s.dedupMessage input = .ok (s₁, messages) → (messages = [] → P s₁ []) ∧
      (messages ≠ [] → L ⟨s₁, (s₁.replay.get? input.slot).getD (.new s₁.index), false⟩ [] messages))
    (message : ∀ st eff m ms st' eff', L st eff (m :: ms) →
      st.pushMessage cfg input.slot input.sourceName m = .ok (st', eff') → L st' (eff ++ eff') ms)
    (finish : ∀ st eff, L st eff [] →
      P (st.finish cfg input.slot).1 (eff ++ (st.finish cfg input.slot).2))
    (h : s.push cfg input = .ok (s', out)) : P s' out := by
  rcases push_cases h with ⟨_, rfl, rfl⟩ | ⟨hfloor, hcleared, s₁, messages, hdedup, h⟩
  · exact skip
  · obtain ⟨hP, hL⟩ := dedup s₁ messages hfloor hcleared hdedup
    rcases h with ⟨hnil, rfl, rfl⟩ | ⟨hne, st, effects, hrun, rfl, rfl⟩
    · exact hP hnil
    · refine finish st effects ?_
      have hloop : ∀ (messages : List Message) (st₀ : PushState) (eff : List Effect), L st₀ eff messages →
          ∀ st eff', run (PushState.pushMessage cfg input.slot input.sourceName) st₀ messages =
            .ok (st, eff') → L st (eff ++ eff') [] := by
        intro messages
        induction messages with
        | nil =>
          intro st₀ eff hL st eff' hrun
          simp only [run_nil, Except.ok.injEq, Prod.mk.injEq] at hrun
          obtain ⟨rfl, rfl⟩ := hrun
          rwa [List.append_nil]
        | cons m ms ih =>
          intro st₀ eff hL st eff' hrun
          obtain ⟨st₁, eff₁, eff₂, h₁, h₂, rfl⟩ := run_cons_ok.mp hrun
          rw [← List.append_assoc]
          exact ih st₁ _ (message st₀ eff m ms st₁ eff₁ hL h₁) st eff₂ h₂
      simpa using hloop messages _ [] (hL hne) st effects hrun

/-- A status leaves deduplication alone or not at all. -/
theorem dedupMessage_slot {msg : MessageSlot} {messages : List Message} {s₁ : Sender}
    (hmsg : input.message = .slot msg) (h : s.dedupMessage input = .ok (s₁, messages)) :
    messages = [] ∨ messages = [.slot msg] := by
  rcases dedupMessage_cases h with ⟨_, _, rfl⟩ | ⟨_, dedup, hpush, _⟩
  · exact Or.inr (by rw [hmsg])
  · rw [hmsg] at hpush
    cases haccept : ((s.dedup.get? input.slot).getD .default).acceptSource
      (Message.slot msg).bankId input.sourceName with
    | none =>
      rw [DedupInfo.push_of_other_source haccept] at hpush
      cases hpush
      exact Or.inl rfl
    | some accepted =>
      rw [DedupInfo.push_slot haccept] at hpush
      split at hpush
      · cases hpush
        exact Or.inl rfl
      · cases hpush
        exact Or.inr rfl

/-- **The push of a status**, on the streams: nothing, or the status with the messages of the bank
that it selects in the slot. -/
theorem push_status {msg : MessageSlot} (hmsg : input.message = .slot msg)
    (h : s.push cfg input = .ok (s', out)) :
    (∀ c, stream c out = []) ∨
    ∃ replay info selected,
      (PushState.slotInfo ⟨s, replay, false⟩ msg.slot).commit msg.status
        (Message.slot msg).bankId = (info, selected) ∧
      stream .processed out = [⟨s.nextArc, .slot msg⟩] ∧
      stream .confirmed out = (if cfg.confirmed then ⟨s.nextArc, .slot msg⟩ ::
        (if msg.status = .slotConfirmed then (selected.map info.getMessages).getD [] else [])
        else []) ∧
      stream .finalized out = (if cfg.finalized then ⟨s.nextArc, .slot msg⟩ ::
        (if msg.status = .slotFinalized then (selected.map info.getMessages).getD [] else [])
        else []) := by
  have hslot : input.slot = msg.slot := by simp [hmsg]
  rcases push_cases h with ⟨_, rfl, rfl⟩ | ⟨_, _, s₁, messages, hdedup, h⟩
  · exact Or.inl fun c => rfl
  · rcases h with ⟨_, rfl, rfl⟩ | ⟨hne, st, effects, hrun, rfl, rfl⟩
    · exact Or.inl fun c => rfl
    · have hmessages := (dedupMessage_slot hmsg hdedup).resolve_left hne
      subst hmessages
      rw [hslot] at hrun ⊢
      obtain ⟨info, selected, kept, hstep⟩ := PushState.pushMessage_status (run_singleton.mp hrun)
      have hs₁ : s₁.slots = s.slots ∧ s₁.nextArc = s.nextArc := by
        rcases dedupMessage_cases hdedup with ⟨_, rfl, _⟩ | ⟨_, dedup, _, rfl⟩ <;> exact ⟨rfl, rfl⟩
      simp only [stream_append, stream_finish, List.append_nil]
      cases kept with
      | false =>
        refine Or.inl fun c => ?_
        cases c
        · simpa using hstep.processed
        · simpa using hstep.confirmed
        · simpa using hstep.finalized
      | true =>
        refine Or.inr ⟨(s₁.replay.get? msg.slot).getD (.new s₁.index), info, selected, ?_, ?_, ?_, ?_⟩
        · have hreceive := hstep.receive
          unfold PushState.slotInfo at hreceive ⊢
          rw [← hs₁.1]
          exact hreceive
        · simpa [hs₁.2] using hstep.processed
        · simpa [hs₁.2] using hstep.confirmed
        · simpa [hs₁.2] using hstep.finalized

end Sender

end Richat
