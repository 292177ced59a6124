import Richat.Channel.PushSpec
import Richat.Pubsub.WorkerStart

/-!
# The frozen updates of slots

The statistics of a slot are counted over its messages on the processed stream, and tested after each of
them. They know nothing of the bank of a message, nor whether the update was already sent. `FrozenRight`
says what an update should be: the first one of its slot, with the counts of one bank, as announced by the
block meta of that bank. `OneBank` is when it is.
-/

namespace Richat

open Lib

/-- What happens to the statistics: a message of the processed stream, or an update after it. -/
inductive StatsEvent where
  | consumed (message : ParsedMessage)
  | frozen (message : ParsedMessage) (stats : SlotTransactionStats)

namespace StatsEvent

def consumed? : StatsEvent → Option ParsedMessage
  | consumed message => some message
  | frozen .. => none

def frozen? : StatsEvent → Option Slot
  | consumed _ => none
  | frozen message _ => some message.slot

end StatsEvent

/-- The messages so far. -/
def consumedMessages (events : List StatsEvent) : List ParsedMessage := events.filterMap (·.consumed?)

abbrev SlotsStats := SortedMap Slot SlotTransactionStatsItem

namespace SlotsStats

def item (stats : SlotsStats) (slot : Slot) : SlotTransactionStatsItem := (stats.get? slot).getD .default

variable (env : WorkerEnv)

/-- The statistics of the worker, for one message. -/
def update : Step SlotsStats ParsedMessage StatsEvent Panic
  | stats, message =>
    match message.message with
    | .slot ⟨slot, .slotFinalized, _, _⟩ => .ok (stats.popWhile (· ≤ slot), [.consumed message])
    | _ =>
      match (stats.item message.slot).add env message with
      | none => .ok (stats, [.consumed message])
      | some item => .ok (stats.insert message.slot item,
          .consumed message :: (item.tryCreate env).toList.map fun r => .frozen r.1 r.2)

end SlotsStats

/-! ### What an update should be -/

section Updates

variable (env : WorkerEnv) (messages : List ParsedMessage) (slot : Slot)

/-- A transaction of the slot, failed or not. -/
def ParsedMessage.isTransactionOf (failed : Bool) (message : ParsedMessage) : Bool :=
  match message.message with
  | .transaction msg => msg.slot = slot && env.failed msg = failed
  | _ => false

def ParsedMessage.isEntryOf (message : ParsedMessage) : Bool :=
  match message.message with
  | .entry msg => msg.slot = slot
  | _ => false

/-- The block meta of the bank announces these numbers. -/
def Announced (bank : Option BankId) (numTransactions numEntries : ℕ) : Prop :=
  ∃ message ∈ messages, ∃ msg, message.message = .blockMeta msg ∧ msg.slot = slot ∧ message.bankId = bank ∧
    msg.executedTransactionCount = numTransactions ∧ msg.entriesCount = numEntries

/-- The statistics are those of the messages of the bank, as announced. -/
structure OfBank (bank : Option BankId) (stats : SlotTransactionStats) : Prop where
  success : stats.numSuccessfulTransactions =
    messages.countP fun m => m.isTransactionOf env slot false && m.bankId = bank
  failed : stats.numFailedTransactions =
    messages.countP fun m => m.isTransactionOf env slot true && m.bankId = bank
  entries : stats.numTransactionEntries = messages.countP fun m => m.isEntryOf slot && m.bankId = bank
  announced : Announced messages slot bank
    (stats.numSuccessfulTransactions + stats.numFailedTransactions) stats.numTransactionEntries

end Updates

/-- The slot has had an update. -/
def Frozen (events : List StatsEvent) (slot : Slot) : Prop :=
  ∃ message stats, .frozen message stats ∈ events ∧ message.slot = slot

/-- An update is the first one of its slot, and of one bank. -/
def FrozenRight (env : WorkerEnv) (events : List StatsEvent) : StatsEvent → Prop
  | .consumed _ => True
  | .frozen message stats => ¬ Frozen events message.slot ∧
      ∃ bank, OfBank env (consumedMessages events) message.slot bank stats

/-! ### When it is -/

/-- A processed status or a block meta. -/
def ParsedMessage.restarts (message : ParsedMessage) : Bool :=
  match message.message with
  | .slot msg => msg.status = .slotProcessed
  | .blockMeta _ => true
  | _ => false

/-- No status has finalized the slot. -/
def NotFinalized (messages : List ParsedMessage) (slot : Slot) : Prop :=
  ∀ message ∈ messages, ∀ msg, message.message = .slot msg → msg.status = .slotFinalized → msg.slot < slot

/-- A slot that had its update gets no processed status and no block meta anymore; and when a message completes
the statistics of its slot, which is not finalized, all transactions and entries of the slot are of one bank,
whose block meta announced the numbers. -/
def OneBank (env : WorkerEnv) (stats : SlotsStats) (events : List StatsEvent) (message : ParsedMessage) : Prop :=
  (message.restarts → ¬ Frozen events message.slot) ∧
  ∀ item, (stats.item message.slot).add env message = some item → (item.tryCreate env).isSome →
    NotFinalized (consumedMessages events) message.slot ∧
    ∃ bank, (∀ m ∈ consumedMessages events ++ [message],
        m.isTransactionOf env message.slot false ∨ m.isTransactionOf env message.slot true ∨
          m.isEntryOf message.slot → m.bankId = bank) ∧
      Announced (consumedMessages events ++ [message]) message.slot bank item.numTransactions item.numEntries

/-! ### One message -/

section Step

variable {env : WorkerEnv} {messages : List ParsedMessage} {message : ParsedMessage} {slot : Slot}
  {stats stats' : SlotsStats} {item item' : SlotTransactionStatsItem} {events out : List StatsEvent}

@[simp] theorem consumedMessages_append (l l' : List StatsEvent) :
    consumedMessages (l ++ l') = consumedMessages l ++ consumedMessages l' := List.filterMap_append

/-- The counters of an item are of all messages of the slot. -/
structure Counted (env : WorkerEnv) (messages : List ParsedMessage) (slot : Slot)
    (item : SlotTransactionStatsItem) : Prop where
  success : item.numTxSuccess = messages.countP (·.isTransactionOf env slot false)
  failed : item.numTxFailed = messages.countP (·.isTransactionOf env slot true)
  entries : item.numEntriesReceived = messages.countP (·.isEntryOf slot)

/-- What a message that counts does to the item of its slot. -/
theorem add_cases (h : item.add env message = some item') :
    (item'.slot = item.slot ∨ item'.slot = message.slot) ∧
    item'.numTxSuccess = item.numTxSuccess +
      (if message.isTransactionOf env message.slot false then 1 else 0) ∧
    item'.numTxFailed = item.numTxFailed + (if message.isTransactionOf env message.slot true then 1 else 0) ∧
    item'.numEntriesReceived = item.numEntriesReceived + (if message.isEntryOf message.slot then 1 else 0) ∧
    (message.restarts = false → item'.hasMeta = item.hasMeta ∧ item'.numTransactions = item.numTransactions ∧
      item'.numEntries = item.numEntries ∧ item.numTxSuccess + item.numTxFailed + item.numEntriesReceived <
        item'.numTxSuccess + item'.numTxFailed + item'.numEntriesReceived) := by
  obtain ⟨arc, message⟩ := message
  unfold SlotTransactionStatsItem.add at h
  cases message with
  | slot msg =>
    simp only at h
    split at h
    · rename_i hstatus
      cases h
      simp [SlotTransactionStatsItem.addCreatedAt, ParsedMessage.slot, ParsedMessage.isTransactionOf,
        ParsedMessage.isEntryOf, ParsedMessage.restarts, hstatus]
    · cases h
  | transaction msg =>
    cases h
    cases hfailed : env.failed msg <;> simp [SlotTransactionStatsItem.addTx, ParsedMessage.slot,
      ParsedMessage.isTransactionOf, ParsedMessage.isEntryOf, ParsedMessage.restarts, hfailed]
  | entry msg =>
    cases h
    simp [SlotTransactionStatsItem.addEntry, ParsedMessage.slot, ParsedMessage.isTransactionOf,
      ParsedMessage.isEntryOf, ParsedMessage.restarts]
  | blockMeta msg =>
    cases h
    simp [SlotTransactionStatsItem.addMeta, ParsedMessage.isTransactionOf, ParsedMessage.isEntryOf,
      ParsedMessage.restarts]
  | _ => cases h

/-- A message that does not count is no transaction and no entry. -/
theorem not_counted (h : item.add env message = none) (slot : Slot) :
    (∀ failed, message.isTransactionOf env slot failed = false) ∧ message.isEntryOf slot = false := by
  obtain ⟨arc, message⟩ := message
  unfold SlotTransactionStatsItem.add at h
  cases message with
  | transaction msg => cases h
  | entry msg => cases h
  | _ => exact ⟨fun _ => rfl, rfl⟩

/-- A message of another slot does not count. -/
theorem not_counted_of_ne (h : slot ≠ message.slot) :
    (∀ failed, message.isTransactionOf env slot failed = false) ∧ message.isEntryOf slot = false := by
  obtain ⟨arc, message⟩ := message
  cases message with
  | transaction msg =>
    have hne : msg.slot ≠ slot := fun heq => h heq.symm
    simp [ParsedMessage.isTransactionOf, ParsedMessage.isEntryOf, hne]
  | entry msg =>
    have hne : msg.slot ≠ slot := fun heq => h heq.symm
    simp [ParsedMessage.isTransactionOf, ParsedMessage.isEntryOf, hne]
  | _ => exact ⟨fun _ => rfl, rfl⟩

theorem Counted.append_other (h : Counted env messages slot item)
    (hother : (∀ failed, message.isTransactionOf env slot failed = false) ∧ message.isEntryOf slot = false) :
    Counted env (messages ++ [message]) slot item where
  success := by simp [h.success, hother.1]
  failed := by simp [h.failed, hother.1]
  entries := by simp [h.entries, hother.2]

theorem Counted.add (h : Counted env messages message.slot item) (hadd : item.add env message = some item') :
    Counted env (messages ++ [message]) message.slot item' := by
  obtain ⟨-, hsuccess, hfailed, hentries, -⟩ := add_cases hadd
  constructor
  · rw [hsuccess, h.success, List.countP_append, List.countP_singleton]
  · rw [hfailed, h.failed, List.countP_append, List.countP_singleton]
  · rw [hentries, h.entries, List.countP_append, List.countP_singleton]

/-- What the statistics do for a message. -/
theorem SlotsStats.update_cases (h : update env stats message = .ok (stats', out)) :
    (∃ msg, message.message = .slot msg ∧ msg.status = .slotFinalized ∧
      stats' = stats.popWhile (· ≤ msg.slot) ∧ out = [.consumed message]) ∨
    ((stats.item message.slot).add env message = none ∧ stats' = stats ∧ out = [.consumed message]) ∨
    ∃ item, (stats.item message.slot).add env message = some item ∧ stats' = stats.insert message.slot item ∧
      out = .consumed message :: (item.tryCreate env).toList.map fun r => .frozen r.1 r.2 := by
  unfold update at h
  dsimp only at h
  split at h
  · rename_i slot bank body hmessage
    cases h
    exact Or.inl ⟨_, hmessage, rfl, rfl, rfl⟩
  · split at h
    · rename_i hadd
      cases h
      exact Or.inr (Or.inl ⟨hadd, rfl, rfl⟩)
    · rename_i item hadd
      cases h
      exact Or.inr (Or.inr ⟨item, hadd, rfl, rfl⟩)

theorem SlotsStats.item_insert (slot' : Slot) :
    SlotsStats.item (stats.insert slot item) slot' = if slot' = slot then item else stats.item slot' := by
  unfold SlotsStats.item
  rw [SortedMap.get?_insert]
  split <;> rfl

theorem SlotsStats.item_popWhile (slot slot' : Slot) :
    SlotsStats.item (stats.popWhile (· ≤ slot)) slot' =
      if slot' ≤ slot then .default else stats.item slot' := by
  unfold SlotsStats.item
  rw [SortedMap.get?_popWhile]
  · by_cases h : slot' ≤ slot <;> simp [h]
  · intro a b hab hb
    simp only [decide_eq_true_eq] at hb ⊢
    exact hab.le.trans hb

/-- What the statistics are when they are complete. -/
theorem tryCreate_some {frozen : ParsedMessage} {numbers : SlotTransactionStats}
    (h : item.tryCreate env = some (frozen, numbers)) :
    frozen.slot = item.slot ∧ item.slot ≠ 0 ∧ item.hasMeta = true ∧
      item.numTransactions = item.numTxSuccess + item.numTxFailed ∧
      item.numEntries = item.numEntriesReceived ∧ numbers.numSuccessfulTransactions = item.numTxSuccess ∧
      numbers.numFailedTransactions = item.numTxFailed ∧ numbers.numTransactionEntries = item.numEntries := by
  unfold SlotTransactionStatsItem.tryCreate at h
  split at h
  · rename_i hcomplete
    cases h
    exact ⟨rfl, hcomplete.1, hcomplete.2.1, hcomplete.2.2.1, hcomplete.2.2.2, rfl, rfl, rfl⟩
  · cases h

/-! ### Every stream -/

/-- The items after some messages. The ones of slots that had their update are not below their numbers. -/
structure StatsInv (env : WorkerEnv) (events : List StatsEvent) (stats : SlotsStats) : Prop where
  slot : ∀ slot, (stats.item slot).slot = 0 ∨ (stats.item slot).slot = slot
  counted : ∀ slot, NotFinalized (consumedMessages events) slot →
    Counted env (consumedMessages events) slot (stats.item slot)
  passed : ∀ slot, Frozen events slot → (stats.item slot).hasMeta = false ∨
    (stats.item slot).numTransactions ≤ (stats.item slot).numTxSuccess + (stats.item slot).numTxFailed ∧
      (stats.item slot).numEntries ≤ (stats.item slot).numEntriesReceived

theorem statsInv_new : StatsInv env [] .empty where
  slot := by
    intro slot
    exact Or.inl rfl
  counted := by
    intro slot _
    exact ⟨rfl, rfl, rfl⟩
  passed := by
    rintro slot ⟨_, _, hmem, -⟩
    cases hmem

theorem NotFinalized.of_append {l : List ParsedMessage} (h : NotFinalized (messages ++ l) slot) :
    NotFinalized messages slot :=
  fun m hm => h m (List.mem_append_left _ hm)

theorem frozen_consumed : Frozen (events ++ [.consumed message]) slot ↔ Frozen events slot := by
  simp [Frozen]

/-- After its update a slot is not complete again, without a status and without a meta. -/
theorem StatsInv.not_complete (h : StatsInv env events stats) (hfrozen : Frozen events message.slot)
    (hrestarts : message.restarts → ¬ Frozen events message.slot)
    (hadd : (stats.item message.slot).add env message = some item) :
    (item.hasMeta = false ∨ item.numTransactions ≤ item.numTxSuccess + item.numTxFailed ∧
      item.numEntries ≤ item.numEntriesReceived) ∧ item.tryCreate env = none := by
  obtain ⟨-, hsuccess, hfailed, hentries, hother⟩ := add_cases hadd
  have hno : message.restarts = false := by
    rw [← Bool.not_eq_true]
    exact fun h => hrestarts h hfrozen
  obtain ⟨hmeta, htransactions, hnumEntries, hmore⟩ := hother hno
  have hpassed := h.passed message.slot hfrozen
  refine ⟨?_, ?_⟩
  · rw [hmeta, htransactions, hnumEntries]
    refine hpassed.imp_right ?_
    rintro ⟨h₁, h₂⟩
    omega
  · rw [Option.eq_none_iff_forall_not_mem]
    rintro ⟨frozen, numbers⟩ hr
    obtain ⟨-, -, hm, hn, he, -⟩ := tryCreate_some hr
    rw [hmeta] at hm
    rcases hpassed with hnone | ⟨h₁, h₂⟩
    · rw [hnone] at hm
      cases hm
    · omega

theorem StatsInv.update (h : StatsInv env events stats) (hone : OneBank env stats events message)
    (hstep : SlotsStats.update env stats message = .ok (stats', out)) :
    StatsInv env (events ++ out) stats' ∧ AtEach (fun pre => FrozenRight env (events ++ pre)) out := by
  rcases SlotsStats.update_cases hstep with ⟨msg, hmessage, hstatus, rfl, rfl⟩ | ⟨hadd, rfl, rfl⟩ |
    ⟨item, hadd, rfl, rfl⟩
  · -- the slots up to the finalized one start anew
    refine ⟨⟨?_, ?_, ?_⟩, atEach_singleton.mpr trivial⟩
    · intro slot
      rw [SlotsStats.item_popWhile]
      split
      · exact Or.inl rfl
      · exact h.slot slot
    · intro slot hnot
      rw [consumedMessages_append] at hnot ⊢
      have hlt := hnot message (by simp [consumedMessages, StatsEvent.consumed?]) msg hmessage hstatus
      rw [SlotsStats.item_popWhile, if_neg (not_le.mpr hlt)]
      refine (h.counted slot hnot.of_append).append_other ?_
      simp [ParsedMessage.isTransactionOf, ParsedMessage.isEntryOf, hmessage]
    · intro slot hfrozen
      rw [SlotsStats.item_popWhile]
      split
      · exact Or.inl rfl
      · exact h.passed slot (frozen_consumed.mp hfrozen)
  · refine ⟨⟨h.slot, ?_, ?_⟩, atEach_singleton.mpr trivial⟩
    · intro slot hnot
      rw [consumedMessages_append] at hnot ⊢
      exact (h.counted slot hnot.of_append).append_other (not_counted hadd slot)
    · intro slot hfrozen
      exact h.passed slot (frozen_consumed.mp hfrozen)
  · have hreceived : ∀ l : List (ParsedMessage × SlotTransactionStats),
        consumedMessages (events ++ .consumed message :: l.map fun r => .frozen r.1 r.2) =
          consumedMessages events ++ [message] := by
      intro l
      rw [consumedMessages_append]
      congr 1
      induction l with
      | nil => rfl
      | cons r l ih => exact ih
    have hslot : item.slot = 0 ∨ item.slot = message.slot := by
      rcases (add_cases hadd).1 with heq | heq
      · rw [heq]
        exact h.slot message.slot
      · exact Or.inr heq
    have hcounted : NotFinalized (consumedMessages events) message.slot →
        Counted env (consumedMessages events ++ [message]) message.slot item :=
      fun hnot => (h.counted message.slot hnot).add hadd
    -- the update of this message, if there is one
    have hupdate : ∀ frozen numbers, item.tryCreate env = some (frozen, numbers) →
        frozen.slot = message.slot ∧ ¬ Frozen events message.slot ∧
        ∃ bank, OfBank env (consumedMessages events ++ [message]) message.slot bank numbers := by
      intro frozen numbers hcreate
      obtain ⟨hfrozen, hne, hm, hn, he, hsuccess, hfailed, hentries⟩ := tryCreate_some hcreate
      obtain ⟨hnot, bank, hbank, hannounced⟩ := hone.2 item hadd (by rw [hcreate]; rfl)
      obtain ⟨hcount₁, hcount₂, hcount₃⟩ := hcounted hnot
      refine ⟨hfrozen.trans (hslot.resolve_left hne), ?_, bank, ?_, ?_, ?_, ?_⟩
      · intro hbefore
        rw [(h.not_complete hbefore hone.1 hadd).2] at hcreate
        cases hcreate
      · rw [hsuccess, hcount₁]
        refine List.countP_congr fun m hm => ?_
        simpa using fun hof => hbank m hm (Or.inl hof)
      · rw [hfailed, hcount₂]
        refine List.countP_congr fun m hm => ?_
        simpa using fun hof => hbank m hm (Or.inr (Or.inl hof))
      · rw [hentries, he, hcount₃]
        refine List.countP_congr fun m hm => ?_
        simpa using fun hof => hbank m hm (Or.inr (Or.inr hof))
      · rw [hsuccess, hfailed, hentries, ← hn]
        exact hannounced
    refine ⟨⟨?_, ?_, ?_⟩, ?_⟩
    · intro slot
      rw [SlotsStats.item_insert]
      split
      · rename_i heq
        exact heq ▸ hslot
      · exact h.slot slot
    · intro slot hnot
      rw [hreceived] at hnot ⊢
      rw [SlotsStats.item_insert]
      split
      · rename_i heq
        subst heq
        exact hcounted hnot.of_append
      · rename_i hne
        exact (h.counted slot hnot.of_append).append_other (not_counted_of_ne hne)
    · rintro slot ⟨frozen, numbers, hmem, rfl⟩
      rw [SlotsStats.item_insert]
      by_cases hbefore : Frozen events frozen.slot
      · split
        · rename_i heq
          rw [heq] at hbefore
          exact (h.not_complete hbefore hone.1 hadd).1
        · exact h.passed frozen.slot hbefore
      · -- the update is of this message
        have hcreate : item.tryCreate env = some (frozen, numbers) := by
          rcases List.mem_append.mp hmem with hold | hnew
          · exact absurd ⟨frozen, numbers, hold, rfl⟩ hbefore
          · simpa using hnew
        obtain ⟨-, -, -, hn, he, -⟩ := tryCreate_some hcreate
        rw [if_pos (hupdate frozen numbers hcreate).1]
        exact Or.inr ⟨hn.le, he.le⟩
    · cases hcreate : item.tryCreate env with
      | none => exact atEach_singleton.mpr trivial
      | some r =>
        obtain ⟨hfrozen, hfirst, hbank⟩ := hupdate r.1 r.2 hcreate
        show AtEach _ ([StatsEvent.consumed message] ++ [StatsEvent.frozen r.1 r.2])
        refine atEach_append.mpr ⟨atEach_singleton.mpr trivial, atEach_singleton.mpr ?_⟩
        have hsame := hreceived []
        refine ⟨?_, ?_⟩
        · rw [hfrozen, List.append_nil, frozen_consumed]
          exact hfirst
        · rw [hfrozen, List.append_nil]
          exact hsame ▸ hbank

end Step

/-- There is one update for a slot then. -/
theorem nodup_frozen {env : WorkerEnv} {events : List StatsEvent} (h : AtEach (FrozenRight env) events) :
    (events.filterMap (·.frozen?)).Nodup := by
  induction events using List.reverseRecOn with
  | nil => exact List.nodup_nil
  | append_singleton events e ih =>
    obtain ⟨hevents, he⟩ := atEach_append.mp h
    have hright := atEach_singleton.mp he
    rw [List.append_nil] at hright
    rw [List.filterMap_append]
    cases e with
    | consumed message => simpa [StatsEvent.frozen?] using ih hevents
    | frozen message numbers =>
      refine List.Nodup.append (ih hevents) (by simp [StatsEvent.frozen?]) ?_
      intro slot hslot hnew
      obtain rfl : slot = message.slot := by simpa [StatsEvent.frozen?] using hnew
      obtain ⟨e, hmem, hfrozen⟩ := List.mem_filterMap.mp hslot
      cases e with
      | consumed other => cases hfrozen
      | frozen other numbers' => exact hright.1 ⟨other, numbers', hmem, Option.some.inj hfrozen⟩

theorem SlotsStats.update_finalized {env : WorkerEnv} {stats : SlotsStats} {message : ParsedMessage} {slot : Slot}
    {bankId : Option BankId} {body : Bytes} (h : message.message = .slot ⟨slot, .slotFinalized, bankId, body⟩) :
    SlotsStats.update env stats message = .ok (stats.popWhile (· ≤ slot), [.consumed message]) := by
  simp only [SlotsStats.update, h]

theorem SlotsStats.update_other {env : WorkerEnv} {stats : SlotsStats} {message : ParsedMessage}
    {added : Option SlotTransactionStatsItem}
    (h : ∀ slot bankId body, message.message = .slot ⟨slot, .slotFinalized, bankId, body⟩ → False)
    (hadd : (stats.item message.slot).add env message = added) :
    SlotsStats.update env stats message = .ok (added.elim stats (stats.insert message.slot ·),
      .consumed message :: ((added.bind (·.tryCreate env)).toList.map fun r => .frozen r.1 r.2)) := by
  unfold SlotsStats.update
  dsimp only
  split
  · rename_i slot bankId body hmessage
    exact (h slot bankId body hmessage).elim
  · rw [hadd]
    cases added with
    | none => rfl
    | some item => rfl

/-- The worker keeps these statistics, and its extra messages are the updates. -/
theorem Worker.observe_slotsStats {env : WorkerEnv} {s s' : Worker} {message : ParsedMessage}
    {extra : Option (ParsedMessage × SlotTransactionStats)} (h : s.observe env message = .ok (s', extra)) :
    SlotsStats.update env s.slotsStats message =
      .ok (s'.slotsStats, .consumed message :: extra.toList.map fun r => .frozen r.1 r.2) := by
  unfold Worker.observe at h
  split at h
  · cases h
  · dsimp only at h
    split at h
    · rename_i hmessage
      cases h
      exact SlotsStats.update_finalized hmessage
    · rename_i hother
      split at h
      · rename_i hadd
        cases h
        exact SlotsStats.update_other hother hadd
      · rename_i item hadd
        cases h
        exact SlotsStats.update_other hother hadd

/-- The message is the block meta that announces these numbers for the bank. -/
def ParsedMessage.announces (slot : Slot) (bank : Option BankId) (numTransactions numEntries : ℕ)
    (message : ParsedMessage) : Bool :=
  match message.message with
  | .blockMeta msg => msg.slot = slot && message.bankId = bank &&
      msg.executedTransactionCount = numTransactions && msg.entriesCount = numEntries
  | _ => false

theorem announced_of_announces {messages : List ParsedMessage} {m : ParsedMessage} {slot : Slot}
    {bank : Option BankId} {numTransactions numEntries : ℕ} (hm : m ∈ messages)
    (h : m.announces slot bank numTransactions numEntries) :
    Announced messages slot bank numTransactions numEntries := by
  unfold ParsedMessage.announces at h
  split at h
  · rename_i msg hmessage
    simp only [Bool.and_eq_true, decide_eq_true_eq] at h
    obtain ⟨⟨⟨hslot, hbank⟩, htransactions⟩, hentries⟩ := h
    exact ⟨m, hm, msg, hmessage, hslot, hbank, htransactions, hentries⟩
  · cases h

namespace SlotsStats

/-- A bank without transactions and entries. -/
def emptyBank : List ParsedMessage :=
  [⟨0, .blockMeta ⟨10, 1, 0, 0, ⟨0, 0⟩, []⟩⟩, ⟨1, .slot ⟨10, .slotProcessed, some 1, []⟩⟩]

/-- A complete bank of the slot `10`, and then the block meta of another one with the same numbers. -/
def twoBanks : List PushInput :=
  [⟨true, "a", .transaction ⟨10, 1, some (List.replicate 64 0), 0, []⟩⟩,
    ⟨true, "a", .blockMeta ⟨10, 1, 1, 0, ⟨0, 0⟩, []⟩⟩, ⟨true, "a", .slot ⟨10, .slotProcessed, some 1, []⟩⟩,
    ⟨true, "a", .blockMeta ⟨10, 2, 1, 0, ⟨0, 0⟩, []⟩⟩]

end SlotsStats

end Richat
