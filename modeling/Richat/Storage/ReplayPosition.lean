import Richat.Grpc.SubscribeClient
import Richat.Storage.Coverage
import Richat.Storage.JournalOrder

/-!
# Replay positions

`getCurrentTailWithReplay` says where a client that asks for a slot starts to read: in the ring of its
stream, or in the journal. `PositionComplete` is what the answer promises: nothing of the slot or a
later one, since the last live epoch, comes before the position or is gone. `replay_position` says for
which slots it holds.
-/

namespace Richat

open Lib

/-- The lowest head of the slots from this one on. -/
def leastHead {υ : Type*} (head : υ → ℕ) (m : SortedMap Slot υ) (slot : Slot) : Option ℕ :=
  ((m.entries.filter fun e => slot ≤ e.1).map fun e => head e.2).min?

/-- Where the ring has the first message of the slots from this one on. -/
def SharedChannel.memoryHead (shared : SharedChannel) (slot : Slot) : Option ℕ :=
  if shared.slots.firstKey?.any (· ≤ slot) then leastHead id shared.slots slot else none

/-- The `Debug` text of a commitment. -/
def CommitmentLevel.debug : CommitmentLevel → String
  | .processed => "Processed"
  | .confirmed => "Confirmed"
  | .finalized => "Finalized"

namespace Node

/-- The newest slot that the process knows of. -/
def newestSlot (s : Node) (commitment : CommitmentLevel) : Option Slot :=
  s.sender.replay.lastKey?.or (s.streams commitment).shared.slots.lastKey?

/-- The end of `Messages::get_current_tail_with_replay`: a position in the journal. -/
def storagePosition (s : Node) (storage : Storage) (commitment : CommitmentLevel) (slot : Slot) :
    Except String IndexLocation :=
  match s.sender.replay.firstKey?.filter (slot < ·) with
  | some first =>
    .error s!"failed to get replay position for slot {slot}; first available: {first}"
  | none =>
    match leastHead (·.head) s.sender.replay slot with
    | none => .error s!"failed to get replay position for slot {slot}"
    | some index =>
      if !storage.replayEnabled commitment then
        .error s!"disk replay is not enabled for {commitment.debug}; configure storage.commitments"
      else if !s.disk.catalog.supportsCommitmentReplay index commitment then
        .error "requested slot predates continuous disk history for this commitment"
      else .ok (.storage index)

/-- `Messages::get_current_tail_with_replay`. -/
def getCurrentTailWithReplay (cfg : ConfigNode) (s : Node) (commitment : CommitmentLevel)
    (replayFromSlot : Option Slot) : Except String IndexLocation :=
  let shared := (s.streams commitment).shared
  match replayFromSlot with
  | none => .ok (.memory (shared.tail + 1))
  | some slot =>
    match shared.memoryHead slot with
    | some position => .ok (.memory position)
    | none =>
      if (s.newestSlot commitment).any (· < slot) then .ok (.memory (shared.tail + 1))
      else
        match cfg.channel.storage with
        | none => .error s!"failed to get replay position for slot {slot}"
        | some storage => s.storagePosition storage commitment slot

end Node

/-! ### What a position promises -/

/-- The events of the earlier processes. -/
def beforeStart (events : List NodeEvent) : List NodeEvent :=
  events.rdropWhile (·.started?.isNone)

/-- The items that earlier processes pushed to a stream since the last live epoch. -/
def earlierItems (commitment : CommitmentLevel) (events : List NodeEvent) : List Item :=
  if (streamEvents commitment events).any (·.isEpoch) then []
  else sinceEpoch ((beforeStart events).filterMap (·.channelEvent? commitment))

/-- The item is in the ring. -/
def SenderShared.Has (s : SenderShared) (item : Item) : Prop :=
  s.head ≤ item.pos ∧ item.pos ≤ s.shared.tail ∧ s.shared.item item.pos = item

/-- **The position is complete**, for the messages of the slot and of later ones since the last live
epoch. A ring has only what its own process pushed. -/
def PositionComplete (s : Node) (events : List NodeEvent) (commitment : CommitmentLevel) (slot : Slot) :
    IndexLocation → Prop
  | .unknown => False
  | .memory position =>
    (∀ item ∈ sinceEpoch (streamEvents commitment events), slot ≤ item.slot →
      position ≤ item.pos ∧ (s.streams commitment).Has item) ∧
    ∀ item ∈ earlierItems commitment events, item.slot < slot
  | .storage index => ∀ k t, Journalled s events commitment k t → slot ≤ t →
      index ≤ k ∧ ((s.disk.record k).isSome → s.disk.catalog.Retains k)

/-- The slot is between the slots of the ring, or later than all slots. -/
def Node.AnswersFromMemory (s : Node) (commitment : CommitmentLevel) (slot : Slot) : Prop :=
  (∃ first last, (s.streams commitment).shared.slots.firstKey? = some first ∧
    (s.streams commitment).shared.slots.lastKey? = some last ∧ first ≤ slot ∧ slot ≤ last) ∨
  ∃ newest, s.newestSlot commitment = some newest ∧ newest < slot

/-! ### The two maps -/

section Heads

variable {υ : Type*} {head : υ → ℕ} {m : SortedMap Slot υ} {slot t : Slot} {v : υ} {p : ℕ}

theorem leastHead_eq_some (h : leastHead head m slot = some p) :
    (∃ t v, m.get? t = some v ∧ slot ≤ t ∧ head v = p) ∧
      ∀ t v, m.get? t = some v → slot ≤ t → p ≤ head v := by
  obtain ⟨hmem, hle⟩ := List.min?_eq_some_iff.mp h
  constructor
  · obtain ⟨e, he, rfl⟩ := List.mem_map.mp hmem
    obtain ⟨he, hslot⟩ := List.mem_filter.mp he
    exact ⟨e.1, e.2, SortedMap.get?_eq_some.mpr he, of_decide_eq_true hslot, rfl⟩
  · intro t v hget hslot
    refine hle _ (List.mem_map.mpr ⟨⟨t, v⟩, List.mem_filter.mpr ⟨?_, decide_eq_true hslot⟩, rfl⟩)
    exact SortedMap.get?_eq_some.mp hget

variable (head) in
theorem exists_leastHead (hget : m.get? t = some v) (hle : slot ≤ t) :
    ∃ p, leastHead head m slot = some p := by
  refine Option.isSome_iff_exists.mp (List.isSome_min?_of_ne_nil fun hnil => ?_)
  have : ⟨t, v⟩ ∈ m.entries.filter fun e => slot ≤ e.1 :=
    List.mem_filter.mpr ⟨SortedMap.get?_eq_some.mp hget, decide_eq_true hle⟩
  rw [List.map_eq_nil_iff.mp hnil] at this
  cases this

/-- The keys are between the first and the last one. -/
theorem between_keys (ht : t ∈ m.keys) :
    ∃ first last, m.firstKey? = some first ∧ m.lastKey? = some last ∧ first ≤ t ∧ t ≤ last := by
  cases hfirst : m.firstKey? with
  | none =>
    rw [SortedMap.firstKey?_eq_none.mp hfirst] at ht
    cases ht
  | some first =>
    cases hlast : m.lastKey? with
    | none =>
      rw [SortedMap.lastKey?_eq_none.mp hlast] at ht
      cases ht
    | some last =>
      refine ⟨first, last, rfl, rfl, ?_, ?_⟩
      · rcases (SortedMap.firstKey?_eq_some hfirst).2 t ht with heq | hlt
        · exact heq.ge
        · exact hlt.le
      · rcases (SortedMap.lastKey?_eq_some hlast).2 t ht with heq | hlt
        · exact heq.le
        · exact hlt.le

theorem SharedChannel.memoryHead_eq_some {shared : SharedChannel}
    (h : shared.memoryHead slot = some p) : ∃ first, shared.slots.firstKey? = some first ∧
      first ≤ slot ∧ leastHead id shared.slots slot = some p := by
  unfold memoryHead at h
  cases hfirst : shared.slots.firstKey? with
  | none => simp [hfirst] at h
  | some first =>
    simp only [hfirst, Option.any_some, decide_eq_true_eq] at h
    split at h
    · rename_i hle
      exact ⟨first, rfl, hle, h⟩
    · cases h

/-- The ring has a head when the slot is between its slots. -/
theorem SharedChannel.exists_memoryHead {shared : SharedChannel} :
    (∃ p, shared.memoryHead slot = some p) ↔ ∃ first last, shared.slots.firstKey? = some first ∧
      shared.slots.lastKey? = some last ∧ first ≤ slot ∧ slot ≤ last := by
  constructor
  · rintro ⟨p, h⟩
    obtain ⟨first, hfirst, hle, hleast⟩ := memoryHead_eq_some h
    obtain ⟨⟨t, v, hget, hslot, -⟩, -⟩ := leastHead_eq_some hleast
    obtain ⟨first', last, hfirst', hlast, -, htlast⟩ := between_keys (SortedMap.mem_keys_of_get? hget)
    exact ⟨first, last, hfirst, hlast, hle, hslot.trans htlast⟩
  · rintro ⟨first, last, hfirst, hlast, hle, hslot⟩
    obtain ⟨v, hget⟩ :=
      Option.isSome_iff_exists.mp (SortedMap.mem_keys.mp (SortedMap.lastKey?_eq_some hlast).1)
    obtain ⟨p, hp⟩ := exists_leastHead id hget hslot
    refine ⟨p, ?_⟩
    unfold memoryHead
    rw [hfirst, Option.any_some, if_pos (decide_eq_true hle), hp]

end Heads

section Answer

variable {cfg : ConfigNode} {s : Node} {commitment : CommitmentLevel} {slot : Slot}
  {location : IndexLocation}

theorem Node.storagePosition_eq_ok {storage : Storage}
    (h : s.storagePosition storage commitment slot = .ok location) :
    ∃ index, location = .storage index ∧ leastHead (·.head) s.sender.replay slot = some index ∧
      ∀ first, s.sender.replay.firstKey? = some first → first ≤ slot := by
  unfold storagePosition at h
  split at h
  · cases h
  · rename_i hfirst
    split at h
    · cases h
    · rename_i index hindex
      split at h
      · cases h
      · split at h
        · cases h
        · cases h
          refine ⟨index, rfl, hindex, fun first hkey => not_lt.mp fun hlt => ?_⟩
          rw [hkey, Option.filter_some, if_pos (decide_eq_true hlt)] at hfirst
          cases hfirst

/-- The answers. -/
theorem Node.getCurrentTailWithReplay_eq_ok
    (h : s.getCurrentTailWithReplay cfg commitment (some slot) = .ok location) :
    (∃ position, location = .memory position ∧
      (s.streams commitment).shared.memoryHead slot = some position) ∨
    (location = .memory ((s.streams commitment).shared.tail + 1) ∧
      (s.streams commitment).shared.memoryHead slot = none ∧
      ∃ newest, s.newestSlot commitment = some newest ∧ newest < slot) ∨
    (cfg.channel.storage.isSome ∧ ¬ s.AnswersFromMemory commitment slot ∧
      ∃ index, location = .storage index ∧ leastHead (·.head) s.sender.replay slot = some index ∧
        ∀ first, s.sender.replay.firstKey? = some first → first ≤ slot) := by
  unfold getCurrentTailWithReplay at h
  dsimp only at h
  split at h
  · rename_i position hposition
    cases h
    exact Or.inl ⟨position, rfl, hposition⟩
  · rename_i hnone
    split at h
    · rename_i hnewest
      cases h
      refine Or.inr (Or.inl ⟨rfl, hnone, ?_⟩)
      cases hkey : s.newestSlot commitment with
      | none => simp [hkey] at hnewest
      | some newest =>
        rw [hkey] at hnewest
        exact ⟨newest, rfl, of_decide_eq_true hnewest⟩
    · rename_i hnewest
      split at h
      · cases h
      · rename_i storage hstorage
        refine Or.inr (Or.inr ⟨by rw [hstorage]; rfl, ?_, storagePosition_eq_ok h⟩)
        rintro (hbetween | ⟨newest, hkey, hlt⟩)
        · obtain ⟨p, hp⟩ := SharedChannel.exists_memoryHead.mpr hbetween
          rw [hnone] at hp
          cases hp
        · rw [hkey] at hnewest
          exact hnewest (decide_eq_true hlt)

variable (cfg) in
/-- The slots that are answered from memory. -/
theorem Node.answersFromMemory_iff : s.AnswersFromMemory commitment slot ↔
    ∃ position, s.getCurrentTailWithReplay cfg commitment (some slot) = .ok (.memory position) := by
  constructor
  · intro h
    unfold getCurrentTailWithReplay
    dsimp only
    cases hhead : (s.streams commitment).shared.memoryHead slot with
    | some position => exact ⟨position, rfl⟩
    | none =>
      rcases h with hbetween | ⟨newest, hkey, hlt⟩
      · obtain ⟨p, hp⟩ := SharedChannel.exists_memoryHead.mpr hbetween
        rw [hhead] at hp
        cases hp
      · refine ⟨_, if_pos ?_⟩
        rw [hkey]
        exact decide_eq_true hlt
  · rintro ⟨position, h⟩
    rcases getCurrentTailWithReplay_eq_ok h with ⟨p, -, hp⟩ | ⟨-, -, hnewest⟩ | ⟨-, -, index, heq, -⟩
    · exact Or.inl (SharedChannel.exists_memoryHead.mp ⟨p, hp⟩)
    · exact Or.inr hnewest
    · cases heq

end Answer

/-! ### The ring -/

section Ring

variable {size : ParsedMessage → ℕ} {k : ℕ} {events : List ChannelEvent} {c : Channel} {slot t : Slot}
  {item : Item}

/-- A message since the last live epoch, of a slot that is not below a complete one, is in the ring. -/
theorem ChannelInv.has_of_sinceEpoch (h : ChannelInv size k events c) (hidle : c.pushing = none)
    (ht : t ∈ c.sender.shared.slots.keys) (hitem : item ∈ sinceEpoch events) (hle : t ≤ item.slot) :
    c.sender.Has item ∧
      ∃ head, c.sender.shared.slots.get? item.slot = some head ∧ head ≤ item.pos := by
  obtain ⟨i, hi⟩ := List.getElem?_of_mem hitem
  -- its place in the log
  have hlog : (storedItems events)[(beforeEpoch events).length + i]? = some item := by
    rw [← beforeEpoch_append_sinceEpoch, List.getElem?_append_right (Nat.le_add_right _ _),
      Nat.add_sub_cancel_left, hi]
  have hpos := h.ring.pos _ item hlog
  have hindex : item.pos - (2 ^ k + 1) = (beforeEpoch events).length + i := by omega
  rw [← hindex] at hlog
  obtain ⟨head, hhead, hheadle⟩ := h.exists_head hidle ht (by omega) (by omega) hlog hle
  have hkept := (h.head_kept hidle hhead).1
  have hlt := (List.getElem?_eq_some_iff.mp hlog).1
  have htail : item.pos ≤ c.sender.tail := by
    have := h.log_length
    omega
  have hread := (h.item_of_kept (hkept.trans hheadle) htail).1
  refine ⟨⟨hkept.trans hheadle, ?_, ?_⟩, head, hhead, hheadle⟩
  · rw [h.idle hidle]
    exact htail
  · rw [hlog] at hread
    exact (Option.some.inj hread).symm

end Ring

/-! ### The answer of a node -/

section Position

variable {cfg : ConfigNode} {s : Node} {events : List NodeEvent} {commitment : CommitmentLevel}
  {slot : Slot}

/-- A position in the ring. -/
theorem memory_complete {k position : ℕ}
    (hc : ChannelInv cfg.size k (streamEvents commitment events) ⟨s.streams commitment, none⟩)
    (hnewest : ∀ last, s.sender.replay.lastKey? = some last →
      ∀ item ∈ sinceEpoch (streamEvents commitment events), item.slot ≤ last)
    (h : s.getCurrentTailWithReplay cfg commitment (some slot) = .ok (.memory position)) :
    ∀ item ∈ sinceEpoch (streamEvents commitment events), slot ≤ item.slot →
      position ≤ item.pos ∧ (s.streams commitment).Has item := by
  intro item hitem hle
  rcases Node.getCurrentTailWithReplay_eq_ok h with
    ⟨p, hp, hhead⟩ | ⟨-, -, newest, hkey, hlt⟩ | ⟨-, -, index, heq, -⟩
  · cases hp
    obtain ⟨first, hfirst, hfirstle, hleast⟩ := SharedChannel.memoryHead_eq_some hhead
    obtain ⟨hhas, head, hget, hheadle⟩ := hc.has_of_sinceEpoch rfl
      (SortedMap.firstKey?_eq_some hfirst).1 hitem (hfirstle.trans hle)
    exact ⟨((leastHead_eq_some hleast).2 _ _ hget hle).trans hheadle, hhas⟩
  · -- the slot is later than all slots
    unfold Node.newestSlot at hkey
    cases hlast : s.sender.replay.lastKey? with
    | some last =>
      rw [hlast] at hkey
      obtain rfl := Option.some.inj hkey
      exact absurd (hnewest _ hlast item hitem) (not_le.mpr (hlt.trans_le hle))
    | none =>
      rw [hlast] at hkey
      obtain ⟨hmem, habove⟩ := SortedMap.lastKey?_eq_some hkey
      obtain ⟨-, head, hget, -⟩ :=
        hc.has_of_sinceEpoch rfl hmem hitem (hlt.le.trans hle)
      rcases habove _ (SortedMap.mem_keys_of_get? hget) with heq | hless
      · exact absurd heq (hlt.trans_le hle).ne'
      · exact absurd (hless.trans (hlt.trans_le hle)) (lt_irrefl _)
  · cases heq

/-- A position in the journal. -/
theorem storage_complete {j₀ : Journal} {outs : List CollectorOutput}
    {ls : List (List WriterCommand)} {l : List WriterCommand} {index : ℕ}
    (hv : NodeView cfg s events j₀ outs ls l)
    (hr : RecordsView cfg s events (j₀.after (ls.take s.writer.nextSeq).flatten))
    (h : s.getCurrentTailWithReplay cfg commitment (some slot) = .ok (.storage index)) :
    PositionComplete s events commitment slot (.storage index) := by
  intro k t hk hle
  rcases Node.getCurrentTailWithReplay_eq_ok h with
    ⟨p, heq, -⟩ | ⟨heq, -⟩ | ⟨-, -, index, heq, hleast, hfirst⟩
  · cases heq
  · cases heq
  · cases heq
    obtain ⟨⟨t', v, hget, -⟩, hmin⟩ := leastHead_eq_some hleast
    obtain ⟨first, last, hkey, -⟩ := between_keys (SortedMap.mem_keys_of_get? hget)
    rcases hr.covered commitment k t hk with ⟨info, hinfo, hhead⟩ | ⟨-, habove⟩
    · refine ⟨(hmin t info hinfo hle).trans hhead, fun hwritten => ?_⟩
      obtain ⟨r, hrec⟩ := Option.isSome_iff_exists.mp hwritten
      obtain ⟨hheads, hfloor⟩ := (hv.sender.replay t _).mp ⟨info, hinfo, rfl⟩
      -- the slot had this head when the record was written
      obtain ⟨rest, hsent, ha⟩ := hv.ahead
      rw [hsent, Journal.after_append] at hheads
      have hlt := hhead.trans_lt (hv.catalog.lt_next (hv.catalog.written k r hrec))
      exact hv.catalog.retained k r hrec t _ (ha.head_of_lt hheads hlt) hfloor hhead
    · have := habove first (SortedMap.firstKey?_eq_some hkey).1
      exact absurd ((this.trans_le (hfirst first hkey)).trans_le hle) (lt_irrefl _)

/-- The replay map has no slot below a message of the process. -/
theorem RecordsView.newest {j : Journal} (hr : RecordsView cfg s events j) {last : Slot}
    (hlast : s.sender.replay.lastKey? = some last) {item : Item}
    (hitem : item ∈ sinceEpoch (streamEvents commitment events)) : item.slot ≤ last := by
  obtain ⟨k, ⟨info, hinfo, -⟩ | ⟨hlt, -⟩⟩ := hr.stored commitment item hitem
  · obtain ⟨-, last', -, hlast', -, hle⟩ := between_keys (SortedMap.mem_keys_of_get? hinfo)
    rw [hlast] at hlast'
    exact hle.trans (Option.some.inj hlast').ge
  · rw [firstRetained_eq hlast] at hlt
    exact hlt.le.trans (Nat.sub_le _ _)

/-- Without storage a process starts with an empty replay map. -/
theorem replay_empty_start (hstorage : cfg.channel.storage = none) {hasher : RandomState} {disk : Disk}
    {nextArc : ℕ} (hstart : Node.start cfg hasher disk nextArc = .ok s) :
    s.sender.replay = .empty := by
  obtain ⟨catalog, writer, sender, -, hsender, rfl⟩ := Node.start_eq_ok hstart
  unfold toSender at hsender
  rw [hstorage] at hsender
  cases hsender
  rfl

/-- Without storage the replay map stays empty. -/
theorem replay_empty_step (hstorage : cfg.channel.storage = none) {action : NodeAction} {s' : Node}
    {out : List NodeEvent} (hs : s.sender.replay = .empty)
    (hstep : Node.step cfg s action = .ok (s', out)) : s'.sender.replay = .empty := by
  cases action with
  | push input =>
    simp only [Node.step] at hstep
    split at hstep
    · cases hstep
    · split at hstep
      · cases hstep
      · rename_i sender effects hpush
        split at hstep
        · cases hstep
        · cases hstep
          refine Sender.push_rule (P := fun s _ => s.replay = .empty) (L := fun _ _ _ => True)
            hs ?_ (fun _ _ _ _ _ _ _ _ => trivial) ?_ hpush
          · intro s₁ messages _ _ hdedup
            refine ⟨fun _ => ?_, fun _ => trivial⟩
            rcases Sender.dedupMessage_cases hdedup with ⟨-, rfl, -⟩ | ⟨-, dedup, -, rfl⟩ <;>
              exact hs
          · intro st eff _
            unfold PushState.finish Sender.retain
            have hnone : (Node.config cfg s.hasher).storage = none := hstorage
            rw [hnone]
            rfl
  | beginLiveEpoch =>
    simp only [Node.step] at hstep
    split at hstep
    · cases hstep
    · cases hstep
      rfl
  | close =>
    cases hstep
    exact hs
  | collect =>
    simp only [Node.step, Node.collected] at hstep
    repeat' split at hstep
    all_goals cases hstep
    all_goals exact hs
  | timeout =>
    simp only [Node.step, Node.collected] at hstep
    split at hstep
    · cases hstep
    · cases hstep
      exact hs
  | compressed i =>
    simp only [Node.step] at hstep
    split at hstep
    · cases hstep
    · cases hstep
      exact hs
  | write =>
    simp only [Node.step] at hstep
    repeat' split at hstep
    all_goals cases hstep
    all_goals exact hs
  | restart hasher =>
    simp only [Node.step] at hstep
    split at hstep
    · cases hstep
    · rename_i hstart
      cases hstep
      exact replay_empty_start hstorage hstart

/-- Without storage the replay map is empty. -/
theorem replay_eq_empty (hstorage : cfg.channel.storage = none) {hasher : RandomState}
    {actions : List NodeAction}
    (h : run (Node.step cfg) (Node.new cfg hasher) actions = .ok (s, events)) :
    s.sender.replay = .empty :=
  run_induction (P := fun _ s _ => s.sender.replay = .empty) rfl
    (fun _ _ _ _ _ _ _ hs hstep => replay_empty_step hstorage hs hstep) h

/-- The answers of a node are complete for the messages of its own process. -/
theorem position_complete {hasher : RandomState} {actions : List NodeAction}
    (hall : AllSteps (Node.step cfg) (StartsInOrder cfg) (Node.new cfg hasher) actions)
    (h : run (Node.step cfg) (Node.new cfg hasher) actions = .ok (s, events))
    (commitment : CommitmentLevel) (slot : Slot) :
    (∀ position, s.getCurrentTailWithReplay cfg commitment (some slot) = .ok (.memory position) →
      ∀ item ∈ sinceEpoch (streamEvents commitment events), slot ≤ item.slot →
        position ≤ item.pos ∧ (s.streams commitment).Has item) ∧
    ∀ index, s.getCurrentTailWithReplay cfg commitment (some slot) = .ok (.storage index) →
      PositionComplete s events commitment slot (.storage index) := by
  obtain ⟨k, hk⟩ := exists_nextPowerOfTwo cfg.ring.maxMessages
  have hstreams := streamsView_run hk h
  by_cases hstorage : cfg.channel.storage.isSome
  · obtain ⟨j₀, outs, ls, l, hv, hr⟩ := recordsView_run hstorage hall h
    exact ⟨fun position => memory_complete (hstreams commitment) fun last hlast item hitem =>
      hr.newest hlast hitem, fun index => storage_complete hv hr⟩
  · rw [Option.not_isSome_iff_eq_none] at hstorage
    refine ⟨fun position => memory_complete (hstreams commitment) fun last hlast => ?_, ?_⟩
    · rw [replay_eq_empty hstorage h] at hlast
      cases hlast
    · intro index hanswer
      rcases Node.getCurrentTailWithReplay_eq_ok hanswer with ⟨p, heq, -⟩ | ⟨heq, -⟩ | ⟨hsome, -⟩
      · cases heq
      · cases heq
      · rw [hstorage] at hsome
        cases hsome

/-- **Replay positions.** In every run whose processes start in order, the position that a slot gets is
complete unless it is one in the ring and an earlier process has pushed messages from the slot on. -/
theorem replay_position {hasher : RandomState} {actions : List NodeAction}
    (hall : AllSteps (Node.step cfg) (StartsInOrder cfg) (Node.new cfg hasher) actions)
    (h : run (Node.step cfg) (Node.new cfg hasher) actions = .ok (s, events))
    (commitment : CommitmentLevel) (slot : Slot) :
    (∀ location, s.getCurrentTailWithReplay cfg commitment (some slot) = .ok location →
      PositionComplete s events commitment slot location) ↔
    (s.AnswersFromMemory commitment slot →
      ∀ item ∈ earlierItems commitment events, item.slot < slot) := by
  obtain ⟨hmemory, hstored⟩ := position_complete hall h commitment slot
  constructor
  · intro hcomplete hanswer
    obtain ⟨position, hposition⟩ := (Node.answersFromMemory_iff cfg).mp hanswer
    exact (hcomplete _ hposition).2
  · intro hearlier location hlocation
    cases location with
    | unknown =>
      rcases Node.getCurrentTailWithReplay_eq_ok hlocation with
        ⟨p, heq, -⟩ | ⟨heq, -⟩ | ⟨-, -, index, heq, -⟩
      · cases heq
      · cases heq
      · cases heq
    | storage index => exact hstored index hlocation
    | memory position =>
      exact ⟨hmemory position hlocation,
        hearlier ((Node.answersFromMemory_iff cfg).mpr ⟨position, hlocation⟩)⟩

end Position

/-- A catalog whose slots all begin with the live epoch has no late slot. -/
theorem noLateSlot_of_heads {maxSlots : ℕ} {disk : Disk}
    (h : ∀ m ∈ disk.catalog.readSlots, m.firstIndex ≤ disk.catalog.replayFloor) :
    disk.NoLateSlot maxSlots :=
  fun m hm _ _ _ hle hlt => absurd (hlt.trans_le (h m hm)) (not_lt.mpr hle)

/-- Slot 5 is on the disk, the process starts again, and a message of slot 7 comes. -/
theorem replay_position_next_slot : ∃ s events,
    run (Node.step .small) (Node.new .small List.length)
      [.push ⟨false, "a", .slot ⟨5, .slotProcessed, none, []⟩⟩, .collect, .collect, .collect,
        .compressed 0, .write, .restart List.length,
        .push ⟨false, "a", .slot ⟨7, .slotProcessed, none, []⟩⟩] = .ok (s, events) ∧
      s.getCurrentTailWithReplay .small .processed (some 7) = .ok (.memory 5) ∧
      PositionComplete s events .processed 7 (.memory 5) := by
  have hall : AllSteps (Node.step .small) (StartsInOrder .small) (Node.new .small List.length)
      [.push ⟨false, "a", .slot ⟨5, .slotProcessed, none, []⟩⟩, .collect, .collect, .collect,
        .compressed 0, .write, .restart List.length,
        .push ⟨false, "a", .slot ⟨7, .slotProcessed, none, []⟩⟩] := by
    refine allSteps_of_checkSteps (p := fun s _ => s.disk.catalog.readSlots.all
      (·.firstIndex ≤ s.disk.catalog.replayFloor)) ?_ (by decide +kernel)
    intro s action hheads
    have hlate : s.disk.NoLateSlot (ConfigNode.small).channel.storageMaxSlots :=
      noLateSlot_of_heads fun m hm => of_decide_eq_true (List.all_eq_true.mp hheads m hm)
    cases action <;> first | exact hlate | trivial
  obtain ⟨s, events, hrun, h⟩ := exists_of_returns
    (p := fun (s : Node) events => decide ((s.getCurrentTailWithReplay .small .processed (some 7)).toOption =
      some (IndexLocation.memory 5)) && (earlierItems .processed events).all (·.slot < 7))
    (x := run (Node.step .small) (Node.new .small List.length)
      [.push ⟨false, "a", .slot ⟨5, .slotProcessed, none, []⟩⟩, .collect, .collect, .collect,
        .compressed 0, .write, .restart List.length,
        .push ⟨false, "a", .slot ⟨7, .slotProcessed, none, []⟩⟩]) (by decide +kernel)
  obtain ⟨hanswer, hearlier⟩ := Bool.and_eq_true_iff.mp h
  have hanswer := ok_of_toOption (of_decide_eq_true hanswer)
  refine ⟨s, events, hrun, hanswer, (replay_position hall hrun .processed 7).mpr (fun _ item hitem => ?_)
    _ hanswer⟩
  exact of_decide_eq_true (List.all_eq_true.mp hearlier item hitem)

/-- Slot 5 is on the disk, the process starts again, and another message of slot 5 comes: slot 5 is
replayed from the ring, without what is on the disk. -/
theorem restart_hides_journal : ∃ s events,
    run (Node.step .small) (Node.new .small List.length)
      [.push ⟨false, "a", .slot ⟨5, .slotProcessed, none, []⟩⟩, .collect, .collect, .collect,
        .compressed 0, .write, .restart List.length,
        .push ⟨false, "a", .blockFooter ⟨5, 0, []⟩⟩] = .ok (s, events) ∧
      s.getCurrentTailWithReplay .small .processed (some 5) = .ok (.memory 5) ∧
      ¬ PositionComplete s events .processed 5 (.memory 5) := by
  obtain ⟨s, events, hrun, h⟩ := exists_of_returns
    (p := fun (s : Node) events => decide ((s.getCurrentTailWithReplay .small .processed (some 5)).toOption =
      some (IndexLocation.memory 5)) && (earlierItems .processed events).any (5 ≤ ·.slot))
    (x := run (Node.step .small) (Node.new .small List.length)
      [.push ⟨false, "a", .slot ⟨5, .slotProcessed, none, []⟩⟩, .collect, .collect, .collect,
        .compressed 0, .write, .restart List.length,
        .push ⟨false, "a", .blockFooter ⟨5, 0, []⟩⟩]) (by decide +kernel)
  obtain ⟨hanswer, hearlier⟩ := Bool.and_eq_true_iff.mp h
  obtain ⟨item, hitem, hslot⟩ := List.any_eq_true.mp hearlier
  refine ⟨s, events, hrun, ok_of_toOption (of_decide_eq_true hanswer), fun hcomplete => ?_⟩
  exact absurd (hcomplete.2 item hitem) (not_lt.mpr (of_decide_eq_true hslot))

/-- Slots 11, 12 and 10, of which one is retained. The process dies after slot 10 is written and before
it is trimmed: a replay from slot 11 begins at slot 12. -/
theorem late_slot_hides_journal : ∃ s events,
    run (Node.step .small) (Node.new .small List.length)
      ([.push ⟨false, "a", .slot ⟨11, .slotProcessed, none, []⟩⟩,
        .push ⟨false, "a", .slot ⟨12, .slotProcessed, none, []⟩⟩,
        .push ⟨false, "a", .slot ⟨10, .slotProcessed, none, []⟩⟩] ++ List.replicate 10 .collect ++
        List.replicate 4 (.compressed 0) ++ List.replicate 6 .write ++ [.restart List.length]) =
        .ok (s, events) ∧
      s.getCurrentTailWithReplay .small .processed (some 11) = .ok (.storage 3) ∧
      ¬ PositionComplete s events .processed 11 (.storage 3) := by
  obtain ⟨s, events, hrun, h⟩ := exists_of_returns
    (p := fun (s : Node) _ => decide ((s.getCurrentTailWithReplay .small .processed (some 11)).toOption =
      some (IndexLocation.storage 3) ∧ s.disk.catalog.replayFloor ≤ 2) &&
        (s.disk.record 2).any fun r => r.slot = 11 ∧ r.commitment = .processed)
    (x := run (Node.step .small) (Node.new .small List.length)
      ([.push ⟨false, "a", .slot ⟨11, .slotProcessed, none, []⟩⟩,
        .push ⟨false, "a", .slot ⟨12, .slotProcessed, none, []⟩⟩,
        .push ⟨false, "a", .slot ⟨10, .slotProcessed, none, []⟩⟩] ++ List.replicate 10 .collect ++
        List.replicate 4 (.compressed 0) ++ List.replicate 6 .write ++ [.restart List.length]))
    (by decide +kernel)
  obtain ⟨hanswer, hrecord⟩ := Bool.and_eq_true_iff.mp h
  obtain ⟨hanswer, hfloor⟩ := of_decide_eq_true hanswer
  refine ⟨s, events, hrun, ok_of_toOption hanswer, fun hcomplete => ?_⟩
  cases hr : s.disk.record 2 with
  | none =>
    rw [hr] at hrecord
    cases hrecord
  | some r =>
    rw [hr] at hrecord
    obtain ⟨hslot, hcommitment⟩ := of_decide_eq_true hrecord
    exact absurd (hcomplete 2 11 ⟨hfloor, Or.inl ⟨r, hr, hslot, hcommitment⟩⟩ le_rfl).1 (by decide)

end Richat
