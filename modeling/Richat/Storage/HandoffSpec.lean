import Richat.Storage.Handoff

/-!
# Exactly one offer for each record

`Handoff.ExactlyOnce` is what a client gets from the disk and the ring: the selected records of the
journal from its first index on, each once and in order. `RingView` says which records the ring has,
`ClientView` how far the client is. Both hold in every run whose lookups do not find the worker ahead
of the ring (`NotAhead`).
-/

namespace Richat

open Lib

/-- The selected record at an index. -/
def selectedAt (selection : ReplaySelection) (records : List JournalRecord) (i : ℕ) :
    Option (ℕ × ParsedMessage) :=
  (records[i]?.filter selection.selects).map fun record => (i, record.message)

/-- The selected records from `lo` on and before `hi`. -/
def selectedRecords (selection : ReplaySelection) (records : List JournalRecord) (lo hi : ℕ) :
    List (ℕ × ParsedMessage) :=
  (List.range' lo (hi - lo)).filterMap (selectedAt selection records)

/-- What was pushed to the client. -/
def offeredMessages (events : List HandoffEvent) : List (ℕ × ParsedMessage) :=
  events.filterMap fun
    | .offered index message => some (index, message)
    | .channel _ => none

/-- What happened on the ring. -/
def ringEvents (events : List HandoffEvent) : List ChannelEvent :=
  events.filterMap fun
    | .channel event => some event
    | .offered .. => none

/-- **The client is offered every record once**, from the index on: what it was offered are the first
of the selected records, and all of them once it has read the ring to its end. -/
structure Handoff.ExactlyOnce (s : Handoff) (selection : ReplaySelection) (index : ℕ)
    (events : List HandoffEvent) : Prop where
  inOrder : offeredMessages events <+:
    selectedRecords selection s.records index s.records.length
  complete : ∀ replay position, s.replay = some replay → replay.head = .memory position →
    s.channel.sender.tail < position → s.sending = none →
    offeredMessages events = selectedRecords selection s.records index s.records.length

/-- The worker does not look for the next record in the ring before the last one that it took from the
disk is in the ring. -/
def Handoff.NotAhead (s : Handoff) : HandoffAction → Prop
  | .lookup => ∀ replay nextIndex i record, s.replay = some replay →
      replay.head = .storage nextIndex → replay.state.readError = none → s.sending = some i →
      s.records[i]? = some record → replay.selection.selects record → nextIndex ≤ i
  | _ => True

/-! ### The selected records -/

section Selected

variable {selection : ReplaySelection} {records : List JournalRecord} {lo mid hi n i : ℕ}
  {record : JournalRecord}

theorem selectedRecords_split (h₁ : lo ≤ mid) (h₂ : mid ≤ hi) :
    selectedRecords selection records lo hi =
      selectedRecords selection records lo mid ++ selectedRecords selection records mid hi := by
  unfold selectedRecords
  rw [← List.filterMap_append]
  congr 1
  have hsplit : List.range' lo (mid - lo) ++ List.range' (lo + (mid - lo)) (hi - mid) =
      List.range' lo (mid - lo + (hi - mid)) := List.range'_append_1
  rw [show lo + (mid - lo) = mid by omega, show mid - lo + (hi - mid) = hi - lo by omega] at hsplit
  exact hsplit.symm

theorem selectedRecords_self : selectedRecords selection records n n = [] := by
  simp [selectedRecords]

theorem selectedRecords_succ (h : lo ≤ n) :
    selectedRecords selection records lo (n + 1) =
      selectedRecords selection records lo n ++ (selectedAt selection records n).toList := by
  rw [selectedRecords_split h (Nat.le_succ n)]
  congr 1
  cases h : selectedAt selection records n <;> simp [selectedRecords, h]

theorem selectedAt_of_selects (hget : records[i]? = some record) (h : selection.selects record) :
    selectedAt selection records i = some (i, record.message) := by
  simp [selectedAt, hget, h]

theorem selectedAt_eq_none (hget : records[i]? = some record) (h : selection.selects record = false) :
    selectedAt selection records i = none := by
  simp [selectedAt, hget, h]

/-- No record between the indices is selected. -/
theorem selectedRecords_eq_nil
    (h : ∀ i record, lo ≤ i → i < hi → records[i]? = some record → selection.selects record = false) :
    selectedRecords selection records lo hi = [] := by
  refine List.filterMap_eq_nil_iff.mpr fun i hi => ?_
  obtain ⟨hlo, hlt⟩ := List.mem_range'_1.mp hi
  cases hget : records[i]? with
  | none => simp [selectedAt, hget]
  | some record => exact selectedAt_eq_none hget (h i record hlo (by omega) hget)

/-- Later records change nothing below. -/
theorem selectedRecords_append (h : hi ≤ records.length) :
    selectedRecords selection (records ++ [record]) lo hi = selectedRecords selection records lo hi := by
  refine List.filterMap_congr fun i hmem => ?_
  obtain ⟨hlo, hlt⟩ := List.mem_range'_1.mp hmem
  rw [selectedAt, selectedAt, List.getElem?_append_left (by omega)]

end Selected

/-! ### The ring -/

section Floor

variable {size : ParsedMessage → ℕ} {k : ℕ} {log : List Item} {s s' : SenderShared} {slot : Slot}
  {message : ParsedMessage} {replayIndex : Option ℕ} {removed removed' : Option Slot}

theorem SharedChannel.replayFloor_raiseFloor {shared : SharedChannel} {item : Item}
    (h : item.replayIndex < noReplayIndex) :
    (shared.raiseFloor item).replayFloor = item.replayIndex + 1 := by
  unfold raiseFloor
  rw [if_neg h.ne]

/-- The floor of the ring after a message is stored. -/
theorem RingInv.replayFloor_store (h : RingInv size k log s)
    (hstore : s.store size slot message replayIndex = (s', removed)) :
    (s'.head = s.head ∧ s'.shared.replayFloor = s.shared.replayFloor) ∨
      ∃ old, log[s.head - (2 ^ k + 1)]? = some old ∧ s'.head = s.head + 1 ∧
        s'.shared.replayFloor = (s.shared.raiseFloor old).replayFloor := by
  have hitem := SharedChannel.item_eq h.mask (s.tail + 1)
  have hnext := h.keeps.live_next
  unfold SenderShared.store at hstore
  simp only at hstore
  split at hstore
  · rename_i message' hdata
    have hfull : s.tail + 1 = s.head + 2 ^ k := by
      rw [← hnext, ← hitem]
      unfold Item.Live
      rw [hdata]
      rfl
    have hold : log[s.head - (2 ^ k + 1)]? = some (s.shared.item (s.tail + 1)) := by
      have := Nat.two_pow_pos k
      rw [h.keeps.kept s.head le_rfl (by omega), hitem, hfull, Nat.add_mod_right]
    obtain ⟨rfl, -⟩ := Prod.ext_iff.mp hstore
    exact Or.inr ⟨_, hold, rfl, rfl⟩
  · obtain ⟨rfl, -⟩ := Prod.ext_iff.mp hstore
    exact Or.inl ⟨rfl, rfl⟩

/-- The floor of the ring after the oldest message leaves. -/
theorem RingInv.replayFloor_dropHead (h : RingInv size k log s) (hlt : s.head < s.tail)
    (hdrop : s.dropHead size removed = some (s', removed')) :
    ∃ old, log[s.head - (2 ^ k + 1)]? = some old ∧ s'.head = s.head + 1 ∧
      s'.shared.replayFloor = (s.shared.raiseFloor old).replayFloor := by
  have hold := h.keeps.kept s.head le_rfl hlt.le
  rw [← SharedChannel.item_eq h.mask] at hold
  unfold SenderShared.dropHead at hdrop
  simp only at hdrop
  split at hdrop
  · cases hdrop
  · simp only [Option.some.injEq, Prod.mk.injEq] at hdrop
    obtain ⟨rfl, -⟩ := hdrop
    refine ⟨_, hold, rfl, ?_⟩
    unfold SenderShared.takeHead SharedChannel.raiseFloor
    split <;> rfl

/-- The search in a ring whose records are in the order of their indices: the position found parts them
at the index. -/
theorem RingInv.headByReplayIndex (h : RingInv size k log s) (hhead : s.shared.head = s.head)
    (htail : s.shared.tail = s.tail)
    (hsorted : log.Pairwise fun a b => a.replayIndex < b.replayIndex) {index position : ℕ}
    (hfound : s.shared.getHeadByReplayIndex index = some position) :
    s.shared.replayFloor ≤ index ∧ s.head ≤ position ∧ position ≤ s.tail + 1 ∧
      ∀ q item, log[q]? = some item → s.head ≤ 2 ^ k + 1 + q →
        (2 ^ k + 1 + q < position ↔ item.replayIndex < index) := by
  unfold SharedChannel.getHeadByReplayIndex at hfound
  split at hfound
  · cases hfound
  · rename_i hfloor
    have hfirst := h.keeps.first_le
    have hheadle := h.keeps.head_le
    have hlen := h.keeps.tail_eq
    simp only [hhead, htail] at hfound
    -- a position of the ring has the item of the log
    have hitem : ∀ p, s.head ≤ p → p ≤ s.tail →
        log[p - (2 ^ k + 1)]? = some (s.shared.item p) := by
      intro p hp hp'
      rw [SharedChannel.item_eq h.mask]
      exact h.keeps.kept p hp hp'
    obtain ⟨⟨hle, hle'⟩, hbelow, habove⟩ := partitionPoint_spec
      (p := fun mid => (s.shared.item mid).replayIndex < index) (s.tail + 1 - s.head) s.head
      (s.tail + 1) (fun i j hi hij hj hp => by
        simp only [decide_eq_true_eq] at hp ⊢
        rcases hij.eq_or_lt with rfl | hlt
        · exact hp
        · obtain ⟨hilt, hieq⟩ := List.getElem?_eq_some_iff.mp (hitem i hi (by omega))
          obtain ⟨hjlt, hjeq⟩ := List.getElem?_eq_some_iff.mp (hitem j (by omega) (by omega))
          have hless := List.pairwise_iff_getElem.mp hsorted _ _ hilt hjlt (by omega)
          rw [hieq, hjeq] at hless
          exact hless.trans hp) (by omega) le_rfl
    obtain rfl := Option.some.inj hfound
    refine ⟨not_lt.mp hfloor, hle, hle', fun q item hq hkept => ?_⟩
    have hqlt := (List.getElem?_eq_some_iff.mp hq).1
    have hread := hitem (2 ^ k + 1 + q) hkept (by omega)
    rw [Nat.add_sub_cancel_left, hq] at hread
    obtain rfl := Option.some.inj hread
    constructor
    · intro hlt
      exact of_decide_eq_true (hbelow _ hkept hlt)
    · intro hlt
      by_contra hge
      have := habove _ (not_lt.mp hge) (by omega)
      simp only [decide_eq_false_iff_not] at this
      exact this hlt

end Floor

/-- The records that are in the ring: those of the stream since the process started (`base`), except
the one that is being sent. -/
structure RingView (size : ParsedMessage → ℕ) (k base : ℕ) (commitment : CommitmentLevel) (s : Handoff)
    (events : List HandoffEvent) : Prop where
  channel : ChannelInv size k (ringEvents events) s.channel
  head : s.channel.pushing = none → s.channel.sender.shared.head = s.channel.sender.head
  length : base ≤ s.records.length ∧ s.records.length ≤ noReplayIndex
  floor : base ≤ s.channel.sender.shared.replayFloor
  item : ∀ item ∈ storedItems (ringEvents events), base ≤ item.replayIndex ∧
    ∃ record, s.records[item.replayIndex]? = some record ∧ record.commitment = commitment ∧
      item.data = some record.message ∧ item.slot = record.message.slot
  sorted : (storedItems (ringEvents events)).Pairwise fun a b => a.replayIndex < b.replayIndex
  present : ∀ i record, s.records[i]? = some record → record.commitment = commitment → base ≤ i →
    s.sending = some i ∨ ∃ item ∈ storedItems (ringEvents events), item.replayIndex = i
  sending : ∀ i, s.sending = some i → s.channel.pushing = none ∧
    ∀ item ∈ storedItems (ringEvents events), item.replayIndex < i
  sent : ∀ i, s.sending = some i → base ≤ i ∧
    ∃ record, s.records[i]? = some record ∧ record.commitment = commitment
  gone : ∀ q item, (storedItems (ringEvents events))[q]? = some item →
    2 ^ k + 1 + q < s.channel.sender.head → item.replayIndex < s.channel.sender.shared.replayFloor

/-! ### The steps of the sender -/

section Ring

variable {size : ParsedMessage → ℕ} {k base : ℕ} {commitment : CommitmentLevel} {s s' : Handoff}
  {events out : List HandoffEvent} {cfg : ConfigChannelInner} {durable : DurableJournal}

@[simp] theorem ringEvents_append :
    ringEvents (events ++ out) = ringEvents events ++ ringEvents out := List.filterMap_append

@[simp] theorem offeredMessages_append :
    offeredMessages (events ++ out) = offeredMessages events ++ offeredMessages out :=
  List.filterMap_append

@[simp] theorem ringEvents_channel (l : List ChannelEvent) :
    ringEvents (l.map .channel) = l := by
  simp [ringEvents, List.filterMap_map]

@[simp] theorem offeredMessages_channel (l : List ChannelEvent) :
    offeredMessages (l.map .channel) = [] := by
  simp [offeredMessages, List.filterMap_map]

/-- Two items with one replay index are at one place. -/
theorem RingView.lt_iff (h : RingView size k base commitment s events) {p q : ℕ} {a b : Item}
    (ha : (storedItems (ringEvents events))[p]? = some a)
    (hb : (storedItems (ringEvents events))[q]? = some b) :
    p < q ↔ a.replayIndex < b.replayIndex := by
  obtain ⟨hp, rfl⟩ := List.getElem?_eq_some_iff.mp ha
  obtain ⟨hq, rfl⟩ := List.getElem?_eq_some_iff.mp hb
  have hsorted := List.pairwise_iff_getElem.mp h.sorted
  constructor
  · exact fun hlt => hsorted p q hp hq hlt
  · intro hlt
    by_contra hge
    rcases (not_lt.mp hge).eq_or_lt with rfl | hgt
    · exact lt_irrefl _ hlt
    · exact lt_asymm hlt (hsorted q p hq hp hgt)

theorem RingView.lt_iff_succ (h : RingView size k base commitment s events) {p q : ℕ} {a b : Item}
    (ha : (storedItems (ringEvents events))[p]? = some a)
    (hb : (storedItems (ringEvents events))[q]? = some b) :
    p ≤ q ↔ a.replayIndex < b.replayIndex + 1 := by
  rw [← not_lt, h.lt_iff hb ha, not_lt, Nat.lt_succ_iff]

theorem RingView.index_lt (h : RingView size k base commitment s events) {item : Item}
    (hitem : item ∈ storedItems (ringEvents events)) : item.replayIndex < s.records.length := by
  obtain ⟨-, record, hget, -⟩ := h.item item hitem
  exact (List.getElem?_eq_some_iff.mp hget).1

/-- Without a push to the ring or a record sent, the view depends on the sender's part only. -/
theorem RingView.congr (h : RingView size k base commitment s events)
    (hchannel : s'.channel = s.channel) (hrecords : s'.records = s.records)
    (hsending : s'.sending = s.sending) (hout : ringEvents out = []) :
    RingView size k base commitment s' (events ++ out) := by
  have hevents : ringEvents (events ++ out) = ringEvents events := by
    rw [ringEvents_append, hout, List.append_nil]
  constructor
  · rw [hevents, hchannel]
    exact h.channel
  · rw [hchannel]
    exact h.head
  · rw [hrecords]
    exact h.length
  · rw [hchannel]
    exact h.floor
  · rw [hevents, hrecords]
    exact h.item
  · rw [hevents]
    exact h.sorted
  · rw [hevents, hrecords, hsending]
    exact h.present
  · rw [hevents, hchannel, hsending]
    exact h.sending
  · rw [hrecords, hsending]
    exact h.sent
  · rw [hevents, hchannel]
    exact h.gone

theorem ringView_new (hk : nextPowerOfTwo cfg.maxMessages = 2 ^ k) :
    RingView size k durable.records.length commitment (.new cfg durable) [] := by
  have hring : RingInv size k [] (.new (.new (2 ^ k)) (2 ^ k) cfg.maxBytes) := .new
  have hnil : storedItems (ringEvents []) = [] := rfl
  unfold Handoff.new Channel.new
  rw [hk]
  constructor
  · refine ⟨⟨hring.mask, hring.keeps, hring.pos, hring.stale, hring.last, hring.bytesTotal⟩, .new,
      fun _ => rfl, fun slot removed h => by cases h⟩
  · exact fun _ => rfl
  · exact ⟨le_rfl, durable.length_le⟩
  · exact le_rfl
  · rw [hnil]
    simp
  · rw [hnil]
    exact .nil
  · intro i record hget _ hle
    exact absurd (List.getElem?_eq_some_iff.mp hget).1 (not_lt.mpr hle)
  · intro i hi
    cases hi
  · intro i hi
    cases hi
  · rw [hnil]
    intro q item hq
    cases hq

/-- A record is sent to the journal. -/
theorem RingView.send (h : RingView size k base commitment s events) {record : JournalRecord}
    (hstep : Handoff.step size commitment s (.send record) = .ok (s', out)) :
    RingView size k base commitment s' (events ++ out) ∧ s'.replay = s.replay ∧ out = [] ∧
      s'.channel = s.channel ∧ s'.records = s.records ++ [record] ∧ s.sending = none ∧
      s'.sending = if record.commitment = commitment then some s.records.length else none := by
  simp only [Handoff.step] at hstep
  split at hstep
  · cases hstep
  · rename_i hguard
    cases hstep
    simp only [not_or, Bool.not_eq_true, Option.isSome_eq_false_iff, Option.isNone_iff_eq_none,
      not_le] at hguard
    obtain ⟨hsending, hpushing, hlen⟩ := hguard
    refine ⟨?_, rfl, rfl, rfl, rfl, hsending, rfl⟩
    rw [List.append_nil]
    constructor
    · exact h.channel
    · exact h.head
    · simp only [List.length_append, List.length_singleton]
      exact ⟨h.length.1.trans (Nat.le_succ _), hlen⟩
    · exact h.floor
    · intro item hitem
      obtain ⟨hle, record', hget, hrest⟩ := h.item item hitem
      refine ⟨hle, record', ?_, hrest⟩
      rw [List.getElem?_append_left (h.index_lt hitem), hget]
    · exact h.sorted
    · intro i record' hget hcommitment hle
      rcases Nat.lt_or_ge i s.records.length with hlt | hge
      · rw [List.getElem?_append_left hlt] at hget
        rcases h.present i record' hget hcommitment hle with hno | hitem
        · rw [hsending] at hno
          cases hno
        · exact Or.inr hitem
      · rw [List.getElem?_append_right hge] at hget
        obtain ⟨hlt, rfl⟩ := List.getElem?_eq_some_iff.mp hget
        have hi : i = s.records.length := by
          have : i - s.records.length < 1 := hlt
          omega
        left
        simp only [List.getElem_singleton] at hcommitment
        simp [hcommitment, hi]
    · intro i hi
      refine ⟨hpushing, fun item hitem => ?_⟩
      split at hi
      · cases hi
        exact h.index_lt hitem
      · cases hi
    · intro i hi
      split at hi
      · rename_i hcommitment
        cases hi
        exact ⟨h.length.1, record, by simp, hcommitment⟩
      · cases hi
    · exact h.gone

/-- The actions on the ring. -/
theorem Handoff.channelStep_eq_ok {sending : Option ℕ} {action : ChannelAction}
    (h : s.channelStep size sending action = .ok (s', out)) : ∃ channel channelOut,
      s.channel.step size action = .ok (channel, channelOut) ∧ s' = { s with channel, sending } ∧
        out = channelOut.map .channel := by
  unfold channelStep at h
  split at h
  · cases h
  · rename_i channel channelOut hstep
    cases h
    exact ⟨channel, channelOut, hstep, rfl, rfl⟩

/-- What is gone stays below the floor that the next item to go has raised. -/
theorem RingView.gone_of_raise (h : RingView size k base commitment s events) {old : Item}
    (hold : (storedItems (ringEvents events))[s.channel.sender.head - (2 ^ k + 1)]? = some old) :
    base ≤ old.replayIndex + 1 ∧
      (s.channel.sender.shared.raiseFloor old).replayFloor = old.replayIndex + 1 ∧
      ∀ q item, (storedItems (ringEvents events))[q]? = some item →
        2 ^ k + 1 + q < s.channel.sender.head + 1 → item.replayIndex < old.replayIndex + 1 := by
  have hmem := List.mem_of_getElem? hold
  refine ⟨(h.item old hmem).1.trans (Nat.le_succ _),
    SharedChannel.replayFloor_raiseFloor ((h.index_lt hmem).trans_le h.length.2),
    fun q item hq hlt => ?_⟩
  have hfirst := h.channel.ring.keeps.first_le
  rcases Nat.lt_or_ge q (s.channel.sender.head - (2 ^ k + 1)) with hless | hge
  · exact ((h.lt_iff hq hold).mp hless).trans (Nat.lt_succ_self _)
  · have heq : q = s.channel.sender.head - (2 ^ k + 1) := by omega
    rw [heq, hold] at hq
    cases hq
    exact Nat.lt_succ_self _

/-- What a step of the sender on the ring does: at most, the record that was sent is stored. -/
structure RingStep (s s' : Handoff) (events out : List HandoffEvent) : Prop where
  replay : s'.replay = s.replay
  records : s'.records = s.records
  offered : offeredMessages out = []
  tail : s.channel.sender.tail ≤ s'.channel.sender.tail
  log : (storedItems (ringEvents (events ++ out)) = storedItems (ringEvents events) ∧
      s'.sending = s.sending) ∨
    ∃ item, storedItems (ringEvents (events ++ out)) = storedItems (ringEvents events) ++ [item] ∧
      s.sending = some item.replayIndex ∧ s'.sending = none

theorem RingView.store (h : RingView size k base commitment s events)
    (hstep : Handoff.step size commitment s .store = .ok (s', out)) :
    RingView size k base commitment s' (events ++ out) ∧ RingStep s s' events out := by
  simp only [Handoff.step] at hstep
  split at hstep
  · cases hstep
  · rename_i index hsending
    split at hstep
    · cases hstep
    · rename_i record hrecord
      obtain ⟨channel, channelOut, hchannel, rfl, rfl⟩ := Handoff.channelStep_eq_ok hstep
      have hinv := h.channel.step hchannel
      rcases Channel.step_cases hchannel with
        ⟨slot, message, replayIndex, s₁, removed, hidle, heq, hstore, rfl, rfl⟩ |
        ⟨_, _, _, _, _, heq, -⟩ | ⟨_, _, _, heq, -⟩ | ⟨_, _, heq, -⟩
      · cases heq
        have hitem := SenderShared.item_store hstore
        obtain ⟨-, hsame, htail, -⟩ := h.channel.ring.store hstore
        obtain ⟨hpushing, hbelow⟩ := h.sending index hsending
        obtain ⟨hbase, record', hget, hcommitment⟩ := h.sent index hsending
        rw [hrecord] at hget
        cases hget
        have hlog : storedItems (ringEvents (events ++
            [ChannelEvent.stored (s₁.shared.item s₁.tail)].map .channel)) =
            storedItems (ringEvents events) ++
              [s.channel.sender.newItem record.message.slot record.message (some index)] := by
          rw [ringEvents_append, ringEvents_channel, storedItems_append, hitem]
          rfl
        have hgone : base ≤ s₁.shared.replayFloor ∧
            ∀ q item, (storedItems (ringEvents events))[q]? = some item →
              2 ^ k + 1 + q < s₁.head → item.replayIndex < s₁.shared.replayFloor := by
          rcases h.channel.ring.replayFloor_store hstore with
            ⟨hhead, hfloor⟩ | ⟨old, hold, hhead, hfloor⟩
          · rw [hhead, hfloor]
            exact ⟨h.floor, h.gone⟩
          · obtain ⟨hle, hraise, hlt⟩ := h.gone_of_raise hold
            rw [hhead, hfloor, hraise]
            exact ⟨hle, hlt⟩
        refine ⟨⟨?_, ?_, h.length, hgone.1, ?_, ?_, ?_, ?_, ?_, ?_⟩, rfl, rfl, ?_, ?_, ?_⟩
        · rw [ringEvents_append, ringEvents_channel]
          exact hinv
        · intro hno
          cases hno
        · rw [hlog]
          intro item hmem
          rcases List.mem_append.mp hmem with hmem | hmem
          · exact h.item item hmem
          · rw [List.mem_singleton.mp hmem]
            exact ⟨hbase, record, hrecord, hcommitment, rfl, rfl⟩
        · rw [hlog]
          refine List.pairwise_append.mpr ⟨h.sorted, List.pairwise_singleton _ _, ?_⟩
          intro item hmem new hnew
          rw [List.mem_singleton.mp hnew]
          exact hbelow item hmem
        · rw [hlog]
          intro i record' hget hcommitment' hle
          right
          rcases h.present i record' hget hcommitment' hle with hsent | ⟨item, hmem, hi⟩
          · rw [hsending] at hsent
            cases hsent
            exact ⟨_, List.mem_append_right _ (List.mem_singleton.mpr rfl), rfl⟩
          · exact ⟨item, List.mem_append_left _ hmem, hi⟩
        · intro i hi
          cases hi
        · intro i hi
          cases hi
        · rw [hlog]
          intro q item hq hlt
          rcases Nat.lt_or_ge q (storedItems (ringEvents events)).length with hless | hge
          · rw [List.getElem?_append_left hless] at hq
            exact hgone.2 q item hq hlt
          · -- the new message is in the ring
            have hle := hinv.ring.last (by simp)
            have hlen := h.channel.log_length
            simp only [htail] at hle hlt
            omega
        · exact offeredMessages_channel _
        · exact htail.symm ▸ Nat.le_succ _
        · exact Or.inr ⟨_, hlog, hsending, rfl⟩
      · cases heq
      · cases heq
      · cases heq

/-- The steps that follow leave the log alone. -/
theorem RingView.ring_congr (h : RingView size k base commitment s events) {channel : Channel}
    {channelOut : List ChannelEvent} (hinv : ChannelInv size k (ringEvents events ++ channelOut) channel)
    (hlog : storedItems channelOut = []) (hsending : s.sending = none)
    (hhead : channel.pushing = none → channel.sender.shared.head = channel.sender.head)
    (hfloor : base ≤ channel.sender.shared.replayFloor)
    (htail : channel.sender.tail = s.channel.sender.tail)
    (hgone : ∀ q item, (storedItems (ringEvents events))[q]? = some item →
      2 ^ k + 1 + q < channel.sender.head → item.replayIndex < channel.sender.shared.replayFloor) :
    RingView size k base commitment { s with channel } (events ++ channelOut.map .channel) ∧
      RingStep s { s with channel } events (channelOut.map .channel) := by
  have heq : storedItems (ringEvents (events ++ channelOut.map .channel)) =
      storedItems (ringEvents events) := by
    rw [ringEvents_append, ringEvents_channel, storedItems_append, hlog, List.append_nil]
  refine ⟨⟨?_, hhead, h.length, hfloor, ?_, ?_, ?_, ?_, h.sent, ?_⟩, rfl, rfl, by simp, htail.ge,
    Or.inl ⟨heq, rfl⟩⟩
  · rw [ringEvents_append, ringEvents_channel]
    exact hinv
  · rw [heq]
    exact h.item
  · rw [heq]
    exact h.sorted
  · rw [heq]
    exact h.present
  · intro i hi
    rw [hsending] at hi
    cases hi
  · rw [heq]
    exact hgone

/-- While a message is pushed to the ring, no record is sent. -/
theorem RingView.sending_eq_none (h : RingView size k base commitment s events)
    (hpushing : s.channel.pushing ≠ none) : s.sending = none := by
  cases hsending : s.sending with
  | none => rfl
  | some i => exact absurd (h.sending i hsending).1 hpushing

theorem RingView.dropHead (h : RingView size k base commitment s events)
    (hstep : Handoff.step size commitment s .dropHead = .ok (s', out)) :
    RingView size k base commitment s' (events ++ out) ∧ RingStep s s' events out := by
  obtain ⟨channel, channelOut, hchannel, rfl, rfl⟩ := Handoff.channelStep_eq_ok hstep
  have hinv := h.channel.step hchannel
  rcases Channel.step_cases hchannel with
    ⟨_, _, _, _, _, _, heq, -⟩ | ⟨slot, removed, s₁, removed', hpushing, -, hextra, hdrop, rfl, rfl⟩ |
    ⟨_, _, _, heq, -⟩ | ⟨_, _, heq, -⟩
  · cases heq
  · simp only [SenderShared.hasExtra, decide_eq_true_eq] at hextra
    obtain ⟨old, hold, hhead, hfloor⟩ := h.channel.ring.replayFloor_dropHead hextra.2 hdrop
    obtain ⟨hle, hraise, hlt⟩ := h.gone_of_raise hold
    refine h.ring_congr hinv rfl (h.sending_eq_none (by rw [hpushing]; exact Option.some_ne_none _))
      (fun hno => by cases hno) ?_ (h.channel.ring.dropHead hextra.2 hdrop).2.2.1 ?_
    · rw [hfloor, hraise]
      exact hle
    · simp only [hhead, hfloor, hraise]
      exact hlt
  · cases heq
  · cases heq

theorem RingView.publish (h : RingView size k base commitment s events)
    (hstep : Handoff.step size commitment s .publish = .ok (s', out)) :
    RingView size k base commitment s' (events ++ out) ∧ RingStep s s' events out := by
  obtain ⟨channel, channelOut, hchannel, rfl, rfl⟩ := Handoff.channelStep_eq_ok hstep
  have hinv := h.channel.step hchannel
  rcases Channel.step_cases hchannel with
    ⟨_, _, _, _, _, _, heq, -⟩ | ⟨_, _, _, _, _, heq, -⟩ | ⟨slot, removed, hpushing, -, -, rfl, rfl⟩ |
    ⟨_, _, heq, -⟩
  · cases heq
  · cases heq
  · have hsame : (s.channel.sender.publish slot removed).shared.head = s.channel.sender.head ∧
        (s.channel.sender.publish slot removed).shared.replayFloor =
          s.channel.sender.shared.replayFloor := by
      cases removed <;> exact ⟨rfl, rfl⟩
    obtain ⟨hhead, htail, -⟩ := s.channel.sender.publish_fields slot removed
    refine h.ring_congr hinv rfl (h.sending_eq_none (by rw [hpushing]; exact Option.some_ne_none _))
      (fun _ => hsame.1.trans hhead.symm) ?_ htail ?_
    · rw [hsame.2]
      exact h.floor
    · simp only [hhead, hsame.2]
      exact h.gone
  · cases heq

end Ring

/-! ### The worker -/

/-- What the worker has read: the records from the client's next index on, without a hole. -/
structure Scanned (records : List JournalRecord) (selection : ReplaySelection) (next : ℕ)
    (state : ReplayState) : Prop where
  length : next + state.messages.length ≤ records.length
  messages : ∀ j scanned, state.messages[j]? = some scanned → scanned.index = next + j ∧
    ∃ record, records[next + j]? = some record ∧
      scanned.message = if selection.selects record then some record.message else none
  chunk : ∀ chunk, state.chunk = some chunk →
    chunk.firstIndex = next + state.messages.length ∧ state.reader = some (chunk.lastIndex + 1) ∧
      chunk.firstIndex ≤ chunk.lastIndex + 1 ∧ chunk.lastIndex < records.length
  fresh : state.chunk = none → state.messages = [] ∧ (state.reader = none ∨ state.reader = some next)

section Worker

variable {records : List JournalRecord} {record : JournalRecord} {selection : ReplaySelection}
  {next index : ℕ} {state : ReplayState}

theorem scanned_default (h : index ≤ records.length) :
    Scanned records selection index .default where
  length := h
  messages := by simp [ReplayState.default]
  chunk := by simp [ReplayState.default]
  fresh := by simp [ReplayState.default]

theorem Scanned.append (h : Scanned records selection next state) :
    Scanned (records ++ [record]) selection next state := by
  have hlen : records.length ≤ (records ++ [record]).length := by simp
  refine ⟨h.length.trans hlen, fun j scanned hj => ?_, fun chunk hchunk => ?_, h.fresh⟩
  · obtain ⟨hindex, record', hget, hmessage⟩ := h.messages j scanned hj
    refine ⟨hindex, record', ?_, hmessage⟩
    rw [List.getElem?_append_left (List.getElem?_eq_some_iff.mp hget).1, hget]
  · obtain ⟨hfirst, hreader, hle, hlt⟩ := h.chunk chunk hchunk
    exact ⟨hfirst, hreader, hle, hlt.trans_le hlen⟩

/-- The loop over the records that were read: no hole is found, and the selected ones are pushed. -/
theorem Scanned.popMessages (n : ℕ) : ∀ {next : ℕ} {state : ReplayState},
    Scanned records selection next state →
    next ≤ (Richat.popMessages n next state).1 ∧
      Scanned records selection (Richat.popMessages n next state).1
        (Richat.popMessages n next state).2.1 ∧
      (Richat.popMessages n next state).2.2 =
        selectedRecords selection records next (Richat.popMessages n next state).1 := by
  induction n with
  | zero =>
    intro next state h
    exact ⟨le_rfl, h, selectedRecords_self.symm⟩
  | succ n ih =>
    intro next state h
    unfold Richat.popMessages
    cases hmessages : state.messages with
    | nil => exact ⟨le_rfl, h, selectedRecords_self.symm⟩
    | cons scanned messages =>
      obtain ⟨hindex, record, hget, hmessage⟩ := h.messages 0 scanned (by rw [hmessages]; rfl)
      have hindex : scanned.index = next := hindex
      have hget : records[next]? = some record := hget
      have hlen := h.length
      rw [hmessages, List.length_cons] at hlen
      have hrest : Scanned records selection (next + 1) { state with messages } := by
        refine ⟨by simp only; omega, fun j scanned' hj => ?_, fun chunk hchunk => ?_, fun hchunk => ?_⟩
        · have := h.messages (j + 1) scanned' (by rw [hmessages]; exact hj)
          rwa [show next + (j + 1) = next + 1 + j by omega] at this
        · obtain ⟨hfirst, hrest⟩ := h.chunk chunk hchunk
          rw [hmessages, List.length_cons] at hfirst
          exact ⟨by simp only; omega, hrest⟩
        · have := (h.fresh hchunk).1
          rw [hmessages] at this
          cases this
      obtain ⟨hle, hscanned, hpushed⟩ := ih hrest
      simp only [hindex, ne_eq, not_true_eq_false, if_false]
      refine ⟨(Nat.le_succ next).trans hle, hscanned, ?_⟩
      rw [selectedRecords_split (Nat.le_succ next) hle, hpushed]
      congr 1
      rw [selectedRecords_succ le_rfl, selectedRecords_self, List.nil_append, hmessage]
      by_cases hsel : selection.selects record
      · rw [if_pos hsel, selectedAt_of_selects hget hsel]
        rfl
      · rw [Bool.not_eq_true] at hsel
        rw [selectedAt_eq_none hget hsel]
        simp [hsel]

/-- One record or one chunk more. -/
theorem Scanned.readNext {s : Handoff} (replay : Replay) {fails : Bool}
    (hchunks : ∀ chunk ∈ s.chunks, chunk.lastIndex < s.records.length)
    (h : Scanned s.records replay.selection next replay.state) :
    Scanned s.records replay.selection next (s.readNext replay next fails) := by
  unfold Handoff.readNext
  dsimp only
  split
  · rename_i chunk hfilter
    obtain ⟨hchunk, hle⟩ := Option.filter_eq_some_iff.mp hfilter
    have hle := of_decide_eq_true hle
    obtain ⟨hfirst, hreader, -, hlast⟩ := h.chunk chunk hchunk
    split
    · exact ⟨h.length, h.messages, h.chunk, h.fresh⟩
    · rename_i record hget
      split
      · exact ⟨h.length, h.messages, h.chunk, h.fresh⟩
      · refine ⟨?_, fun j scanned hj => ?_, fun chunk' hchunk' => ?_, fun hno => by cases hno⟩
        · simp only [List.length_append, List.length_singleton]
          omega
        · rcases Nat.lt_or_ge j replay.state.messages.length with hlt | hge
          · simp only [List.getElem?_append_left hlt] at hj
            exact h.messages j scanned hj
          · simp only [List.getElem?_append_right hge] at hj
            obtain ⟨hlt, rfl⟩ := List.getElem?_eq_some_iff.mp hj
            have hj : chunk.firstIndex = next + j := by
              rw [List.length_singleton] at hlt
              omega
            simp only [List.getElem_singleton]
            exact ⟨hj, record, by rw [← hj, hget], rfl⟩
        · cases hchunk'
          simp only [List.length_append, List.length_singleton, hreader, Option.getD_some]
          exact ⟨by omega, trivial, by omega, hlast⟩
  · rename_i hfilter
    -- the reader goes on where the worker is
    have hreader : replay.state.reader.getD next = next + replay.state.messages.length := by
      cases hchunk : replay.state.chunk with
      | none =>
        obtain ⟨hnil, hreader | hreader⟩ := h.fresh hchunk <;> simp [hnil, hreader]
      | some chunk =>
        obtain ⟨hfirst, hreader, hle, -⟩ := h.chunk chunk hchunk
        rw [hchunk, Option.filter_some] at hfilter
        split at hfilter
        · cases hfilter
        · rename_i hno
          simp only [decide_eq_true_eq] at hno
          rw [hreader, Option.getD_some]
          omega
    split
    · refine ⟨h.length, h.messages, fun chunk hchunk => ?_, fun hchunk => ?_⟩
      · obtain ⟨hfirst, hreader', hrest⟩ := h.chunk chunk hchunk
        exact ⟨hfirst, by rw [hreader', Option.getD_some], hrest⟩
      · have hnil := (h.fresh hchunk).1
        refine ⟨hnil, Or.inr ?_⟩
        simp only [hreader, hnil, List.length_nil, Nat.add_zero]
    · rename_i chunk hfind
      split
      · exact ⟨h.length, h.messages, h.chunk, h.fresh⟩
      · refine ⟨h.length, h.messages, fun chunk' hchunk' => ?_, fun hno => by cases hno⟩
        cases hchunk'
        have hlast : replay.state.reader.getD next ≤ chunk.lastIndex := by
          simpa using List.find?_some hfind
        exact ⟨hreader, rfl, by simp only; omega, hchunks chunk (List.mem_of_find?_eq_some hfind)⟩

end Worker

/-! ### The client -/

/-- A client that reads the ring at the position: it has the selected records below `n`. -/
structure RingClient (k base : ℕ) (s : Handoff) (events : List HandoffEvent)
    (selection : ReplaySelection) (index position n : ℕ) : Prop where
  index_le : index ≤ n
  le_length : n ≤ s.records.length
  base_le : base ≤ n
  offered : offeredMessages events = selectedRecords selection s.records index n
  first_le : 2 ^ k + 1 ≤ position
  le_tail : position ≤ s.channel.sender.tail + 1
  below : ∀ q item record, (storedItems (ringEvents events))[q]? = some item →
    s.records[item.replayIndex]? = some record → selection.selects record →
    (2 ^ k + 1 + q < position ↔ item.replayIndex < n)
  sending : ∀ i record, s.sending = some i → s.records[i]? = some record →
    selection.selects record → n ≤ i

/-- How far the client is. -/
def ClientView (k base : ℕ) (s : Handoff) (events : List HandoffEvent) (selection : ReplaySelection)
    (index : ℕ) (replay : Replay) : Prop :=
  replay.selection = selection ∧
    match replay.head with
    | .unknown => False
    | .storage next => index ≤ next ∧
      offeredMessages events = selectedRecords selection s.records index next ∧
      Scanned s.records selection next replay.state
    | .memory position => ∃ n, RingClient k base s events selection index position n

section Client

variable {size : ParsedMessage → ℕ} {k base index position n : ℕ} {commitment : CommitmentLevel}
  {s s' : Handoff} {events out : List HandoffEvent} {selection : ReplaySelection} {replay : Replay}

/-- A step of the sender on the ring. -/
theorem ClientView.ringStep (hring : RingView size k base commitment s events)
    (h : ClientView k base s events selection index replay) (hstep : RingStep s s' events out) :
    ClientView k base s' (events ++ out) selection index replay := by
  have hoffered : offeredMessages (events ++ out) = offeredMessages events := by
    rw [offeredMessages_append, hstep.offered, List.append_nil]
  obtain ⟨hsel, h⟩ := h
  refine ⟨hsel, ?_⟩
  split at h
  · exact h
  · rw [hoffered, hstep.records]
    exact h
  · obtain ⟨n, hc⟩ := h
    refine ⟨n, hc.index_le, ?_, hc.base_le, ?_, hc.first_le,
      hc.le_tail.trans (Nat.succ_le_succ hstep.tail), ?_, ?_⟩
    · rw [hstep.records]
      exact hc.le_length
    · rw [hoffered, hstep.records]
      exact hc.offered
    · rw [hstep.records]
      rcases hstep.log with ⟨hlog, -⟩ | ⟨new, hlog, hsending, -⟩
      · rw [hlog]
        exact hc.below
      · rw [hlog]
        intro q item record hq hget hselects
        rcases Nat.lt_or_ge q (storedItems (ringEvents events)).length with hlt | hge
        · rw [List.getElem?_append_left hlt] at hq
          exact hc.below q item record hq hget hselects
        · -- the record that was being sent is not before the client
          rw [List.getElem?_append_right hge] at hq
          obtain rfl : item = new := List.mem_singleton.mp (List.mem_of_getElem? hq)
          have hn := hc.sending _ record hsending hget hselects
          have hlen := hring.channel.log_length
          have htail := hc.le_tail
          constructor
          · intro hlt
            omega
          · intro hlt
            omega
    · rw [hstep.records]
      rcases hstep.log with ⟨-, hsending⟩ | ⟨new, -, -, hsending⟩
      · rw [hsending]
        exact hc.sending
      · intro i record hi
        rw [hsending] at hi
        cases hi

/-- A record is sent to the journal. -/
theorem ClientView.send (hring : RingView size k base commitment s events)
    (h : ClientView k base s events selection index replay)
    {record : JournalRecord} (hchannel : s'.channel = s.channel)
    (hrecords : s'.records = s.records ++ [record])
    (hsending : ∀ i, s'.sending = some i → i = s.records.length) :
    ClientView k base s' events selection index replay := by
  obtain ⟨hsel, h⟩ := h
  refine ⟨hsel, ?_⟩
  split at h
  · exact h
  · obtain ⟨hle, hoffered, hscanned⟩ := h
    rw [hrecords]
    refine ⟨hle, ?_, hscanned.append⟩
    rw [hoffered, selectedRecords_append ((Nat.le_add_right _ _).trans hscanned.length)]
  · obtain ⟨n, hc⟩ := h
    refine ⟨n, hc.index_le, ?_, hc.base_le, ?_, hc.first_le, ?_, ?_, ?_⟩
    · rw [hrecords, List.length_append]
      exact hc.le_length.trans (Nat.le_add_right _ _)
    · rw [hrecords, hc.offered, selectedRecords_append hc.le_length]
    · rw [hchannel]
      exact hc.le_tail
    · intro q item record' hq hget hselects
      have hlt := hring.index_lt (List.mem_of_getElem? hq)
      rw [hrecords, List.getElem?_append_left hlt] at hget
      exact hc.below q item record' hq hget hselects
    · intro i record' hi _ _
      rw [hsending i hi]
      exact hc.le_length

/-- The lookup: the next record has its place in the ring. -/
theorem RingView.lookup (hring : RingView size k base commitment s events) {next : ℕ}
    (hidle : s.channel.pushing = none)
    (hfound : s.channel.sender.shared.getHeadByReplayIndex next = some position) :
    base ≤ next ∧ 2 ^ k + 1 ≤ position ∧ position ≤ s.channel.sender.tail + 1 ∧
      ∀ q item, (storedItems (ringEvents events))[q]? = some item →
        (2 ^ k + 1 + q < position ↔ item.replayIndex < next) := by
  obtain ⟨hfloor, hle, hle', hplace⟩ := hring.channel.ring.headByReplayIndex (hring.head hidle)
    (hring.channel.idle hidle) hring.sorted hfound
  have hfirst := hring.channel.ring.keeps.first_le
  refine ⟨hring.floor.trans hfloor, hfirst.trans hle, hle', fun q item hq => ?_⟩
  rcases Nat.lt_or_ge (2 ^ k + 1 + q) s.channel.sender.head with hgone | hkept
  · -- what has left the ring is below the floor
    exact ⟨fun _ => (hring.gone q item hq hgone).trans_le hfloor, fun _ => hgone.trans_le hle⟩
  · exact hplace q item hq hkept

/-- **A message from the ring** is the next selected record, or no selected one. -/
theorem RingClient.recv (hring : RingView size k base commitment s events)
    (hsel : selection.commitment = commitment)
    (h : RingClient k base s events selection index position n) {item : Item}
    (hrecv : s.channel.sender.shared.tryRecv position = .ok (some item)) :
    ∃ message n', item.data = some message ∧ n ≤ n' ∧
      RingClient k base s (events ++ if selection.fromSlot.any (message.slot < ·) then [] else
        [.offered item.replayIndex message]) selection index (position + 1) n' := by
  unfold SharedChannel.tryRecv at hrecv
  split at hrecv
  · rename_i htail
    dsimp only at hrecv
    split at hrecv
    · cases hrecv
    · rename_i hpos
      split at hrecv
      · cases hrecv
      · rename_i hdata
        cases hrecv
        obtain ⟨message, hmessage⟩ : ∃ message,
            (s.channel.sender.shared.item position).data = some message := by
          rwa [Bool.not_eq_true, Option.isNone_eq_false_iff, Option.isSome_iff_exists] at hdata
        have hlog := hring.channel.item_of_read (not_not.mp hpos) hmessage
        obtain ⟨hbase, record, hget, hcommitment, hdata', -⟩ :=
          hring.item _ (List.mem_of_getElem? hlog)
        rw [hmessage] at hdata'
        obtain rfl := Option.some.inj hdata'
        have htail' := htail.trans hring.channel.shared_tail_le
        have hfirst := h.first_le
        refine ⟨record.message, ?_⟩
        have hselects : selection.selects record = true ↔
            ¬ selection.fromSlot.any (record.message.slot < ·) := by
          unfold ReplaySelection.selects
          rw [decide_eq_true_eq, hcommitment, hsel]
          simp only [true_and]
        by_cases hskip : selection.fromSlot.any (record.message.slot < ·)
        · -- the slot is below the first one that the client wants
          refine ⟨n, hmessage, le_rfl, ?_⟩
          rw [if_pos hskip, List.append_nil]
          refine ⟨h.index_le, h.le_length, h.base_le, h.offered, hfirst.trans (Nat.le_succ _),
            Nat.succ_le_succ htail', fun q item' record' hq hget' hsel' => ?_, h.sending⟩
          rw [← h.below q item' record' hq hget' hsel']
          constructor
          · intro hlt
            rcases Nat.lt_or_ge (2 ^ k + 1 + q) position with hless | hge
            · exact hless
            · have hqeq : q = position - (2 ^ k + 1) := by omega
              rw [hqeq, hlog] at hq
              obtain rfl := Option.some.inj hq
              rw [hget] at hget'
              obtain rfl := Option.some.inj hget'
              exact absurd hskip (hselects.mp hsel')
          · exact fun hlt => hlt.trans (Nat.lt_succ_self _)
        · have hsel' := hselects.mpr hskip
          have hn : n ≤ (s.channel.sender.shared.item position).replayIndex := by
            by_contra hlt
            have := (h.below _ _ record hlog hget hsel').mpr (not_le.mp hlt)
            omega
          refine ⟨(s.channel.sender.shared.item position).replayIndex + 1, hmessage,
            hn.trans (Nat.le_succ _), ?_⟩
          rw [if_neg hskip]
          refine ⟨h.index_le.trans (hn.trans (Nat.le_succ _)), (List.getElem?_eq_some_iff.mp hget).1,
            hbase.trans (Nat.le_succ _), ?_, hfirst.trans (Nat.le_succ _), Nat.succ_le_succ htail',
            fun q item' record' hq _ _ => ?_, fun i record' hi _ _ => ?_⟩
          · -- no selected record was left out
            have hnone : selectedRecords selection s.records n
                (s.channel.sender.shared.item position).replayIndex = [] := by
              refine selectedRecords_eq_nil fun i record' hi hlt hget' => ?_
              by_contra hsel''
              rw [Bool.not_eq_false] at hsel''
              have hc : record'.commitment = commitment := by
                unfold ReplaySelection.selects at hsel''
                rw [decide_eq_true_eq] at hsel''
                rw [hsel''.1, hsel]
              rcases hring.present i record' hget' hc (h.base_le.trans hi) with
                hsending | ⟨item', hmem, rfl⟩
              · exact absurd ((hring.sending i hsending).2 _ (List.mem_of_getElem? hlog))
                  (not_lt.mpr hlt.le)
              · obtain ⟨q, hq⟩ := List.getElem?_of_mem hmem
                have hless := (hring.lt_iff hq hlog).mpr hlt
                have := (h.below q item' record' hq hget' hsel'').mp (by omega)
                omega
            rw [offeredMessages_append, h.offered, selectedRecords_succ (h.index_le.trans hn),
              selectedRecords_split h.index_le hn, selectedAt_of_selects hget hsel', hnone,
              List.append_nil]
            rfl
          · rw [ringEvents_append, show ringEvents [HandoffEvent.offered _ _] = [] from rfl,
              List.append_nil] at hq
            rw [← hring.lt_iff_succ hq hlog]
            omega
          · exact (hring.sending i hi).2 _ (List.mem_of_getElem? hlog)
  · cases hrecv

/-- A step that leaves the ring and the records alone. -/
theorem ClientView.congr (h : ClientView k base s events selection index replay)
    (hchannel : s'.channel = s.channel) (hrecords : s'.records = s.records)
    (hsending : s'.sending = s.sending) : ClientView k base s' events selection index replay := by
  obtain ⟨hsel, h⟩ := h
  refine ⟨hsel, ?_⟩
  split at h
  · exact h
  · rw [hrecords]
    exact h
  · obtain ⟨n, hc⟩ := h
    refine ⟨n, hc.index_le, ?_, hc.base_le, ?_, hc.first_le, ?_, ?_, ?_⟩
    · rw [hrecords]
      exact hc.le_length
    · rw [hrecords]
      exact hc.offered
    · rw [hchannel]
      exact hc.le_tail
    · rw [hrecords]
      exact hc.below
    · rw [hrecords, hsending]
      exact hc.sending

/-- What the client has, once it has a position. -/
theorem ClientView.exactlyOnce (hring : RingView size k base commitment s events)
    (hreplay : s.replay = some replay) (hsel : selection.commitment = commitment)
    (h : ClientView k base s events selection index replay) :
    s.ExactlyOnce selection index events := by
  obtain ⟨hselection, h⟩ := h
  split at h
  · exact h.elim
  · rename_i next hhead
    obtain ⟨hle, hoffered, hscanned⟩ := h
    have hlen := (Nat.le_add_right _ _).trans hscanned.length
    refine ⟨?_, fun replay' position hreplay' hposition => ?_⟩
    · rw [hoffered, selectedRecords_split hle hlen]
      exact List.prefix_append ..
    · rw [hreplay] at hreplay'
      cases hreplay'
      rw [hhead] at hposition
      cases hposition
  · rename_i position hhead
    obtain ⟨n, hc⟩ := h
    have hsplit : selectedRecords selection s.records index s.records.length =
        selectedRecords selection s.records index n ++
          selectedRecords selection s.records n s.records.length :=
      selectedRecords_split hc.index_le hc.le_length
    refine ⟨?_, fun replay' position' hreplay' hposition htail hsending => ?_⟩
    · rw [hc.offered, hsplit]
      exact List.prefix_append ..
    · rw [hreplay] at hreplay'
      cases hreplay'
      rw [hhead] at hposition
      cases hposition
      rw [hc.offered, hsplit]
      -- the ring is read to its end
      have hnone : selectedRecords selection s.records n s.records.length = [] := by
        refine selectedRecords_eq_nil fun i record hi _ hget => ?_
        by_contra hselects
        rw [Bool.not_eq_false] at hselects
        have hcommitment : record.commitment = commitment := by
          unfold ReplaySelection.selects at hselects
          rw [decide_eq_true_eq] at hselects
          rw [hselects.1, hsel]
        rcases hring.present i record hget hcommitment (hc.base_le.trans hi) with
          hno | ⟨item, hmem, rfl⟩
        · rw [hsending] at hno
          cases hno
        · obtain ⟨q, hq⟩ := List.getElem?_of_mem hmem
          have hqlt := (List.getElem?_eq_some_iff.mp hq).1
          have hlen := hring.channel.log_length
          have := (hc.below q item record hq hget hselects).mp (by omega)
          omega
      rw [hnone, List.append_nil]

end Client

/-! ### Runs -/

/-- The threads after the actions. -/
structure HandoffView (size : ParsedMessage → ℕ) (k base : ℕ) (commitment : CommitmentLevel)
    (actions : List HandoffAction) (s : Handoff) (events : List HandoffEvent) : Prop where
  ring : RingView size k base commitment s events
  chunks : ∀ chunk ∈ s.chunks, chunk.lastIndex < s.records.length
  idle : s.replay = none → offeredMessages events = [] ∧
    ∀ index fromSlot, .subscribe index fromSlot ∉ actions
  client : ∀ replay, s.replay = some replay → ∃ index fromSlot,
    ClientView k base s events ⟨commitment, fromSlot⟩ index replay ∧
    ∀ i f, .subscribe i f ∈ actions → i = index ∧ f = fromSlot

section Runs

variable {size : ParsedMessage → ℕ} {k base : ℕ} {commitment : CommitmentLevel}
  {actions : List HandoffAction} {s s' : Handoff} {events out : List HandoffEvent}
  {cfg : ConfigChannelInner} {durable : DurableJournal}

/-- A step of another thread than the client's. -/
theorem HandoffView.other (h : HandoffView size k base commitment actions s events)
    {action : HandoffAction} (hring : RingView size k base commitment s' (events ++ out))
    (hchunks : ∀ chunk ∈ s'.chunks, chunk.lastIndex < s'.records.length)
    (hreplay : s'.replay = s.replay) (hoffered : offeredMessages out = [])
    (haction : ∀ index fromSlot, action ≠ .subscribe index fromSlot)
    (hclient : ∀ selection index replay, ClientView k base s events selection index replay →
      ClientView k base s' (events ++ out) selection index replay) :
    HandoffView size k base commitment (actions ++ [action]) s' (events ++ out) := by
  have hsub : ∀ index fromSlot, .subscribe index fromSlot ∈ actions ++ [action] →
      .subscribe index fromSlot ∈ actions := by
    intro index fromSlot hmem
    rcases List.mem_append.mp hmem with hmem | hmem
    · exact hmem
    · exact absurd (List.mem_singleton.mp hmem).symm (haction index fromSlot)
  refine ⟨hring, hchunks, fun hnone => ?_, fun replay hsome => ?_⟩
  · rw [hreplay] at hnone
    obtain ⟨hnil, hno⟩ := h.idle hnone
    exact ⟨by rw [offeredMessages_append, hnil, hoffered]; rfl,
      fun index fromSlot hmem => hno index fromSlot (hsub index fromSlot hmem)⟩
  · rw [hreplay] at hsome
    obtain ⟨index, fromSlot, hview, honly⟩ := h.client replay hsome
    exact ⟨index, fromSlot, hclient _ _ _ hview, fun i f hmem => honly i f (hsub i f hmem)⟩

/-- A step of the client's threads: it goes on from where it is. -/
theorem HandoffView.replay (h : HandoffView size k base commitment actions s events)
    {action : HandoffAction} {replay replay' : Replay} (hsome : s.replay = some replay)
    (hchannel : s'.channel = s.channel) (hrecords : s'.records = s.records)
    (hsending : s'.sending = s.sending) (hchunks : s'.chunks = s.chunks)
    (hreplay : s'.replay = some replay') (hout : ringEvents out = [])
    (haction : ∀ index fromSlot, action ≠ .subscribe index fromSlot)
    (hclient : ∀ fromSlot index, ClientView k base s events ⟨commitment, fromSlot⟩ index replay →
      ClientView k base s (events ++ out) ⟨commitment, fromSlot⟩ index replay') :
    HandoffView size k base commitment (actions ++ [action]) s' (events ++ out) := by
  refine ⟨h.ring.congr hchannel hrecords hsending hout, ?_, fun hnone => ?_, fun replay₁ hsome' => ?_⟩
  · rw [hchunks, hrecords]
    exact h.chunks
  · rw [hreplay] at hnone
    cases hnone
  · rw [hreplay] at hsome'
    cases hsome'
    obtain ⟨index, fromSlot, hview, honly⟩ := h.client replay hsome
    refine ⟨index, fromSlot, (hclient _ _ hview).congr hchannel hrecords hsending, fun i f hmem => ?_⟩
    rcases List.mem_append.mp hmem with hmem | hmem
    · exact honly i f hmem
    · exact absurd (List.mem_singleton.mp hmem).symm (haction i f)

theorem handoffView_new (hk : nextPowerOfTwo cfg.maxMessages = 2 ^ k) :
    HandoffView size k durable.records.length commitment [] (.new cfg durable) [] where
  ring := ringView_new hk
  chunks := fun chunk hchunk => (durable.range chunk hchunk).2
  idle := fun _ => ⟨rfl, fun _ _ h => by cases h⟩
  client := fun replay hsome => by cases hsome

/-- **A step of any thread.** -/
theorem handoffView_step (h : HandoffView size k base commitment actions s events)
    {action : HandoffAction} (hok : s.NotAhead action)
    (hstep : Handoff.step size commitment s action = .ok (s', out)) :
    HandoffView size k base commitment (actions ++ [action]) s' (events ++ out) := by
  -- a step of the sender on the ring
  have hsender : ∀ {a : HandoffAction}, (∀ index fromSlot, a ≠ .subscribe index fromSlot) →
      s'.chunks = s.chunks →
      RingView size k base commitment s' (events ++ out) ∧ RingStep s s' events out →
      HandoffView size k base commitment (actions ++ [a]) s' (events ++ out) := by
    rintro a ha hchunks ⟨hring, hring'⟩
    refine h.other hring ?_ hring'.replay hring'.offered ha
      fun _ _ _ hview => hview.ringStep h.ring hring'
    rw [hchunks, hring'.records]
    exact h.chunks
  cases action with
  | send record =>
    obtain ⟨hring, hreplay, rfl, hchannel, hrecords, -, hsending⟩ := h.ring.send hstep
    have hchunks : s'.chunks = s.chunks := by
      simp only [Handoff.step] at hstep
      split at hstep
      · cases hstep
      · cases hstep
        rfl
    refine h.other hring ?_ hreplay rfl (fun _ _ => by simp) fun _ _ _ hview => ?_
    · intro chunk hchunk
      rw [hchunks] at hchunk
      rw [hrecords, List.length_append]
      exact (h.chunks chunk hchunk).trans_le (Nat.le_add_right _ _)
    · rw [List.append_nil]
      refine hview.send h.ring hchannel hrecords fun i hi => ?_
      rw [hsending] at hi
      split at hi
      · exact (Option.some.inj hi).symm
      · cases hi
  | store =>
    refine hsender (fun _ _ => by simp) ?_ (h.ring.store hstep)
    simp only [Handoff.step] at hstep
    split at hstep
    · cases hstep
    · split at hstep
      · cases hstep
      · obtain ⟨channel, channelOut, -, rfl, -⟩ := Handoff.channelStep_eq_ok hstep
        rfl
  | dropHead =>
    refine hsender (fun _ _ => by simp) ?_ (h.ring.dropHead hstep)
    obtain ⟨channel, channelOut, -, rfl, -⟩ := Handoff.channelStep_eq_ok hstep
    rfl
  | publish =>
    refine hsender (fun _ _ => by simp) ?_ (h.ring.publish hstep)
    obtain ⟨channel, channelOut, -, rfl, -⟩ := Handoff.channelStep_eq_ok hstep
    rfl
  | commit lastIndex =>
    simp only [Handoff.step] at hstep
    split at hstep
    · rename_i hlast
      cases hstep
      refine h.other (h.ring.congr rfl rfl rfl rfl) ?_ rfl rfl (fun _ _ => by simp)
        fun _ _ _ hview => ?_
      · intro chunk hchunk
        rcases List.mem_append.mp hchunk with hchunk | hchunk
        · exact h.chunks chunk hchunk
        · rw [List.mem_singleton.mp hchunk]
          exact hlast.2
      · rw [List.append_nil]
        exact hview.congr rfl rfl rfl
    · cases hstep
  | trim n =>
    cases hstep
    refine h.other (h.ring.congr rfl rfl rfl rfl) ?_ rfl rfl (fun _ _ => by simp)
      fun _ _ _ hview => ?_
    · exact fun chunk hchunk => h.chunks chunk (List.mem_of_mem_drop hchunk)
    · rw [List.append_nil]
      exact hview.congr rfl rfl rfl
  | subscribe index fromSlot =>
    simp only [Handoff.step] at hstep
    split at hstep
    · cases hstep
    · rename_i hguard
      cases hstep
      simp only [not_or, Bool.not_eq_true, Option.isSome_eq_false_iff, Option.isNone_iff_eq_none,
        not_lt] at hguard
      obtain ⟨hnone, -, -, hindex⟩ := hguard
      obtain ⟨hnil, hno⟩ := h.idle hnone
      refine ⟨h.ring.congr rfl rfl rfl rfl, h.chunks, (fun hnone => by cases hnone), ?_⟩
      intro replay hreplay
      cases hreplay
      refine ⟨index, fromSlot, ⟨rfl, le_rfl, ?_, scanned_default hindex⟩, fun i f hmem => ?_⟩
      · rw [List.append_nil, hnil, selectedRecords_self]
      · rcases List.mem_append.mp hmem with hmem | hmem
        · exact absurd hmem (hno i f)
        · cases List.mem_singleton.mp hmem
          exact ⟨rfl, rfl⟩
  | pop n =>
    simp only [Handoff.step] at hstep
    split at hstep
    · rename_i selection nextIndex state hsome
      split at hstep
      · cases hstep
        refine h.replay hsome rfl rfl rfl rfl rfl rfl (fun _ _ => by simp) ?_
        rintro fromSlot index ⟨hsel, hview⟩
        rw [List.append_nil]
        exact ⟨hsel, hview⟩
      · cases hstep
        refine h.replay hsome rfl rfl rfl rfl rfl ?_ (fun _ _ => by simp) ?_
        · simp [ringEvents, List.filterMap_map]
        · rintro fromSlot index ⟨rfl, hle, hoffered, hscanned⟩
          obtain ⟨hle', hscanned', hpushed⟩ := hscanned.popMessages n
          refine ⟨rfl, hle.trans hle', ?_, hscanned'⟩
          rw [offeredMessages_append, hoffered, selectedRecords_split hle hle', ← hpushed]
          simp [offeredMessages, List.filterMap_map]
    · cases hstep
  | lookup =>
    simp only [Handoff.step] at hstep
    split at hstep
    · rename_i selection nextIndex state hsome
      split at hstep
      · cases hstep
      · rename_i hidle
        rw [Bool.not_eq_true, Option.isSome_eq_false_iff, Option.isNone_iff_eq_none] at hidle
        split at hstep
        · rename_i position hfound
          cases hstep
          refine h.replay hsome rfl rfl rfl rfl rfl rfl (fun _ _ => by simp) ?_
          rintro fromSlot index ⟨rfl, hle, hoffered, hscanned⟩
          rw [List.append_nil]
          split at hfound
          · rename_i herror
            obtain ⟨hbase, hfirst, htail, hplace⟩ := h.ring.lookup hidle hfound
            refine ⟨rfl, nextIndex, hle, (Nat.le_add_right _ _).trans hscanned.length, hbase, hoffered,
              hfirst, htail, fun q item _ hq _ _ => hplace q item hq, fun i record hi hget hsel => ?_⟩
            exact hok _ nextIndex i record hsome rfl (Option.isNone_iff_eq_none.mp herror) hi hget hsel
          · cases hfound
        · cases hstep
          refine h.replay hsome rfl rfl rfl rfl rfl rfl (fun _ _ => by simp) ?_
          rintro fromSlot index hview
          rw [List.append_nil]
          exact hview
    · cases hstep
  | read fails =>
    simp only [Handoff.step] at hstep
    split at hstep
    · rename_i selection nextIndex state hsome
      split at hstep
      · cases hstep
      · cases hstep
        refine h.replay hsome rfl rfl rfl rfl rfl rfl (fun _ _ => by simp) ?_
        rintro fromSlot index ⟨rfl, hle, hoffered, hscanned⟩
        rw [List.append_nil]
        exact ⟨rfl, hle, hoffered,
          Scanned.readNext ⟨_, .storage nextIndex, false, .reading, state⟩ h.chunks hscanned⟩
    · cases hstep
  | endTurn =>
    simp only [Handoff.step] at hstep
    split at hstep
    · rename_i selection nextIndex state hsome
      cases hstep
      refine h.replay hsome rfl rfl rfl rfl rfl rfl (fun _ _ => by simp) ?_
      rintro fromSlot index hview
      rw [List.append_nil]
      exact hview
    · cases hstep
  | recv =>
    simp only [Handoff.step] at hstep
    split at hstep
    · rename_i selection position phase state hsome
      split at hstep
      · cases hstep
        refine h.replay hsome rfl rfl rfl rfl rfl rfl (fun _ _ => by simp) ?_
        rintro fromSlot index hview
        rw [List.append_nil]
        exact hview
      · cases hstep
        refine h.replay hsome rfl rfl rfl rfl hsome rfl (fun _ _ => by simp) ?_
        rintro fromSlot index hview
        rw [List.append_nil]
        exact hview
      · rename_i item hrecv
        cases hstep
        refine h.replay hsome rfl rfl rfl rfl rfl ?_ (fun _ _ => by simp) ?_
        · cases item.data with
          | none => rfl
          | some message =>
            simp only
            split <;> rfl
        · rintro fromSlot index ⟨rfl, n, hc⟩
          obtain ⟨message, n', hdata, -, hc'⟩ := hc.recv h.ring rfl hrecv
          rw [hdata]
          exact ⟨rfl, n', hc'⟩
    · cases hstep

/-- **From the disk to the ring.** In every run whose lookups do not find the worker ahead of the ring,
the client is offered every selected record once, and in order. -/
theorem Handoff.exactly_once
    (hall : AllSteps (Handoff.step size commitment) Handoff.NotAhead (.new cfg durable) actions)
    (h : run (Handoff.step size commitment) (.new cfg durable) actions = .ok (s, events))
    {index : ℕ} {fromSlot : Option Slot} (hsub : .subscribe index fromSlot ∈ actions) :
    s.ExactlyOnce ⟨commitment, fromSlot⟩ index events := by
  obtain ⟨k, hk⟩ := exists_nextPowerOfTwo cfg.maxMessages
  have hview : HandoffView size k durable.records.length commitment actions s events :=
    run_induction_of (P := HandoffView size k durable.records.length commitment) (handoffView_new hk)
      (fun _ _ _ _ _ _ _ hview hok hstep => handoffView_step hview hok hstep) hall h
  cases hreplay : s.replay with
  | none => exact absurd hsub ((hview.idle hreplay).2 index fromSlot)
  | some replay =>
    obtain ⟨index', fromSlot', hclient, honly⟩ := hview.client replay hreplay
    obtain ⟨rfl, rfl⟩ := honly index fromSlot hsub
    exact hclient.exactlyOnce hview.ring hreplay rfl

end Runs

/-- A journal whose only record is the processed status of slot 5. -/
def DurableJournal.slotFive : DurableJournal where
  records := [⟨.processed, ⟨0, .slot ⟨5, .slotProcessed, none, []⟩⟩⟩]
  chunks := [⟨0, 0⟩]
  range := by simp
  length_le := by decide

/-- A client reads record 0 from the disk while record 1 is sent and pushed to the ring, and gets
record 1 from there. -/
theorem Handoff.exactly_once_two : ∃ s events,
    run (Handoff.step (fun _ => 1) .processed) (.new ⟨4, 100⟩ .slotFive)
      [.subscribe 0 none, .pop 5, .lookup, .read false, .read false,
        .send ⟨.processed, ⟨1, .slot ⟨5, .slotConfirmed, none, []⟩⟩⟩, .store, .publish, .endTurn,
        .pop 5, .lookup, .recv] = .ok (s, events) ∧
      s.ExactlyOnce ⟨.processed, none⟩ 0 events := by
  have hall : AllSteps (Handoff.step (fun _ => 1) .processed) Handoff.NotAhead
      (.new ⟨4, 100⟩ .slotFive)
      [.subscribe 0 none, .pop 5, .lookup, .read false, .read false,
        .send ⟨.processed, ⟨1, .slot ⟨5, .slotConfirmed, none, []⟩⟩⟩, .store, .publish, .endTurn,
        .pop 5, .lookup, .recv] := by
    refine allSteps_of_checkSteps (p := fun s a => match a with
      | .lookup => s.sending.isNone
      | _ => true) ?_ (by decide +kernel)
    intro s action hnone
    cases action with
    | lookup =>
      intro replay nextIndex i record _ _ _ hsending
      rw [Option.isNone_iff_eq_none.mp hnone] at hsending
      cases hsending
    | _ => trivial
  obtain ⟨s, events, hrun, -⟩ := exists_of_returns
    (p := fun (_ : Handoff) (_ : List HandoffEvent) => true)
    (x := run (Handoff.step (fun _ => 1) .processed) (.new ⟨4, 100⟩ .slotFive)
      [.subscribe 0 none, .pop 5, .lookup, .read false, .read false,
        .send ⟨.processed, ⟨1, .slot ⟨5, .slotConfirmed, none, []⟩⟩⟩, .store, .publish, .endTurn,
        .pop 5, .lookup, .recv]) (by decide +kernel)
  exact ⟨s, events, hrun, Handoff.exactly_once hall hrun (List.mem_cons_self ..)⟩

/-- Record 1 is sent to the journal, written and read from the disk before its push to the ring begins:
the worker goes over to the position at which it is pushed next, and the client is offered it twice. -/
theorem Handoff.offered_twice : ∃ s events,
    run (Handoff.step (fun _ => 1) .processed) (.new ⟨4, 100⟩ .slotFive)
      [.subscribe 0 none, .pop 5, .lookup, .read false, .read false,
        .send ⟨.processed, ⟨1, .slot ⟨5, .slotConfirmed, none, []⟩⟩⟩, .commit 1, .read false,
        .read false, .endTurn, .pop 5, .lookup, .store, .publish, .recv] = .ok (s, events) ∧
      (offeredMessages events).map Prod.fst = [0, 1, 1] ∧
      ¬ s.ExactlyOnce ⟨.processed, none⟩ 0 events := by
  obtain ⟨s, events, hrun, h⟩ := exists_of_returns
    (p := fun (s : Handoff) events => decide ((offeredMessages events).map Prod.fst = [0, 1, 1] ∧
      ¬ offeredMessages events <+: selectedRecords ⟨.processed, none⟩ s.records 0 s.records.length))
    (x := run (Handoff.step (fun _ => 1) .processed) (.new ⟨4, 100⟩ .slotFive)
      [.subscribe 0 none, .pop 5, .lookup, .read false, .read false,
        .send ⟨.processed, ⟨1, .slot ⟨5, .slotConfirmed, none, []⟩⟩⟩, .commit 1, .read false,
        .read false, .endTurn, .pop 5, .lookup, .store, .publish, .recv]) (by decide +kernel)
  obtain ⟨hindices, hprefix⟩ := of_decide_eq_true h
  exact ⟨s, events, hrun, hindices, fun honce => hprefix honce.inOrder⟩

end Richat
