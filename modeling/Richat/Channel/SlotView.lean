import Richat.Channel.SlotContents

/-!
# What deduplication must not change

An abstract slot: the cleared banks, and of every bank what decides about its `Block` (counts, block
meta, transactions and entries), but no account updates. `SlotView.step` is what a message does to
it, with the messages it puts on processed; write versions and the accounts of a `Block` are erased.

Without a journal the loop of a push refines this machine (`run_pushMessage_view`).
-/

namespace Richat

open Lib

/-- The message without what deduplication rewrites: write versions, and the accounts of a `Block`. -/
def Message.erase : Message → Message
  | account msg => account (msg.updateWriteVersion 0)
  | block msg => block { msg with accounts := [] }
  | message => message

@[simp] theorem Message.slotOf_erase (m : Message) : m.erase.slotOf = m.slotOf := by
  cases m <;> rfl

@[simp] theorem Message.bankId_erase (m : Message) : m.erase.bankId = m.bankId := by
  cases m <;> rfl

/-- The messages of a slot on processed, in order. -/
def published (slot : Slot) (effects : List Effect) : List Message :=
  ((stream .processed effects).filter fun m => m.slot = slot).map (·.message.erase)

@[simp] theorem published_nil (slot : Slot) : published slot [] = [] := rfl

@[simp] theorem published_append (slot : Slot) (l l' : List Effect) :
    published slot (l ++ l') = published slot l ++ published slot l' := by
  simp [published]

theorem published_of_slot {slot : Slot} {l : List Effect}
    (h : ∀ m ∈ stream .processed l, m.slot = slot) :
    published slot l = (stream .processed l).map (·.message.erase) := by
  unfold published
  rw [List.filter_eq_self.mpr (by simpa using h)]

theorem published_of_ne {slot t : Slot} {l : List Effect} (ht : t ≠ slot)
    (h : ∀ m ∈ stream .processed l, m.slot = slot) : published t l = [] := by
  unfold published
  rw [List.filter_eq_nil_iff.mpr, List.map_nil]
  intro m hm
  simpa [h m hm] using ht.symm

/-! ### Banks -/

structure BankView where
  blockCreated : Bool
  transactionsCount : ℕ
  entriesCount : ℕ
  blockMeta : Option MessageBlockMeta
  transactions : List MessageTransaction
  entries : List MessageEntry

namespace BankView

def new : BankView := ⟨false, 0, 0, none, [], []⟩

/-- The `Block` is created as soon as it can be. -/
def Settled (v : BankView) : Prop :=
  v.blockCreated = false → ∀ blockMeta ∈ v.blockMeta,
    ¬ (blockMeta.executedTransactionCount = v.transactionsCount ∧
      blockMeta.entriesCount = v.entriesCount)

def createBlock (v : BankView) : BankView × Option Message :=
  match v.blockMeta with
  | none => (v, none)
  | some blockMeta =>
    if blockMeta.executedTransactionCount = v.transactionsCount ∧
        blockMeta.entriesCount = v.entriesCount then
      ({ v with blockCreated := true },
        some (.block ⟨[], v.transactions, v.entries, blockMeta, blockMeta.createdAt⟩))
    else (v, none)

theorem createBlock_of_settled {v : BankView} (hs : v.Settled) (hcreated : v.blockCreated = false) :
    v.createBlock = (v, none) := by
  unfold createBlock
  cases hmeta : v.blockMeta with
  | none => rfl
  | some blockMeta =>
    dsimp only
    rw [if_neg (hs hcreated blockMeta hmeta)]

def take (v : BankView) (message : Message) : BankView × Option Message :=
  if v.blockCreated then (v, none)
  else
    match message with
    | .transaction msg =>
      createBlock { v with
        transactions := v.transactions ++ [msg]
        transactionsCount := v.transactionsCount + 1 }
    | .entry msg =>
      createBlock { v with entries := v.entries ++ [msg], entriesCount := v.entriesCount + 1 }
    | .blockMeta msg => createBlock { v with blockMeta := some msg }
    | _ => (v, none)

end BankView

namespace BankInfo

def view (bank : BankInfo) : BankView where
  blockCreated := bank.blockCreated
  transactionsCount := bank.transactionsCount
  entriesCount := bank.entriesCount
  blockMeta := bank.blockMeta
  transactions := bank.stored.filterMap (·.getTransaction)
  entries := bank.stored.filterMap (·.getEntry)

variable {bank bank' : BankInfo} {message : ParsedMessage} {arc : ℕ} {block : Option ParsedMessage}

theorem filterMap_set {α β : Type*} {f : α → Option β} {a b : α} (hb : f b = none) :
    ∀ {l : List α} {idx : ℕ}, l[idx]? = some a → f a = none →
      (l.set idx b).filterMap f = l.filterMap f
  | [], _, h, _ => by simp at h
  | c :: l, 0, h, ha => by
    rw [List.getElem?_cons_zero, Option.some.injEq] at h
    rw [List.set_cons_zero, List.filterMap_cons_none hb, List.filterMap_cons_none (h ▸ ha)]
  | c :: l, idx + 1, h, ha => by
    rw [List.getElem?_cons_succ] at h
    rw [List.set_cons_succ, List.filterMap_cons, List.filterMap_cons, filterMap_set hb h ha]

/-- Account updates leave alone what is read of other messages. -/
theorem filterMap_storeAccount {β : Type*} (f : ParsedMessage → Option β)
    (hf : ∀ m, m.message.isAccount → f m = none) {msg : MessageAccount}
    (h : message.getAccount = some msg) :
    (bank.storeAccount message msg h).stored.filterMap f = bank.stored.filterMap f := by
  have hacc : ∀ {m : ParsedMessage} {msg : MessageAccount}, m.getAccount = some msg →
      f m = none := by
    intro m msg hm
    refine hf m ?_
    obtain ⟨a, m⟩ := m
    cases m <;> first | rfl | cases hm
  have hstored : ∀ l : List (Option ParsedMessage),
      (l.filterMap id).filterMap f = l.filterMap fun o => o.bind f := by
    intro l
    rw [List.filterMap_filterMap]
    rfl
  have hnew : (fun o : Option ParsedMessage => o.bind f) (some message) = none := hacc h
  have hnone : (fun o : Option ParsedMessage => o.bind f) none = none := rfl
  have hbase : (bank.messages ++ [some message]).filterMap (fun o => o.bind f) =
      bank.messages.filterMap fun o => o.bind f := by
    have hlast : [some message].filterMap (fun o => o.bind f) = [] := List.filterMap_cons_none hnew
    rw [List.filterMap_append, hlast, List.append_nil]
  unfold stored storeAccount insertAccount
  dsimp only
  rw [hstored, hstored]
  cases hentry : bank.accountsDedup msg.pubkey with
  | none => exact hbase
  | some entry =>
    obtain ⟨version, idx⟩ := entry
    dsimp only
    split
    · obtain ⟨prev, old, hprev, hold, -, -⟩ := (bank.indexed _ _ _).mp hentry
      have hlt := (List.getElem?_eq_some_iff.mp hprev).1
      rw [filterMap_set hnone (a := some prev) (by rw [List.getElem?_append_left hlt, hprev])
        (hacc hold), hbase]
    · rw [filterMap_set hnone (a := some message) (by simp) hnew, hbase]

theorem view_storeAccount {msg : MessageAccount} (h : message.getAccount = some msg) :
    (bank.storeAccount message msg h).view = bank.view := by
  have htransactions := bank.filterMap_storeAccount (·.getTransaction)
    (fun m hm => by obtain ⟨a, m⟩ := m; cases m <;> first | rfl | cases hm) h
  have hentries := bank.filterMap_storeAccount (·.getEntry)
    (fun m hm => by obtain ⟨a, m⟩ := m; cases m <;> first | rfl | cases hm) h
  unfold view
  rw [htransactions, hentries]
  rfl

/-- A stored message that is no account update. -/
theorem view_store (h : message.getAccount = none) : (bank.store message h).view =
    { bank.view with
      transactions := bank.view.transactions ++ message.getTransaction.toList
      entries := bank.view.entries ++ message.getEntry.toList } := by
  have hsingle : ∀ {β : Type} (f : ParsedMessage → Option β),
      [message].filterMap f = (f message).toList := by
    intro β f
    cases hf : f message <;> simp [hf]
  unfold view
  rw [stored_store, List.filterMap_append, List.filterMap_append, hsingle, hsingle]
  rfl

theorem view_createBlock (h : bank.createBlock arc = (bank', block)) :
    bank.view.createBlock = (bank'.view, block.map (·.message.erase)) ∧ bank'.view.Settled := by
  have hview : bank.view.blockMeta = bank.blockMeta := rfl
  unfold createBlock at h
  unfold BankView.createBlock
  cases hmeta : bank.blockMeta with
  | none =>
    simp only [hmeta] at h
    cases h
    rw [hview, hmeta]
    refine ⟨rfl, fun _ blockMeta hb => ?_⟩
    rw [hview, hmeta] at hb
    cases hb
  | some blockMeta =>
    simp only [hmeta] at h
    rw [hview, hmeta]
    by_cases hcount : blockMeta.executedTransactionCount = bank.transactionsCount ∧
        blockMeta.entriesCount = bank.entriesCount
    · have hcount' : blockMeta.executedTransactionCount = bank.view.transactionsCount ∧
          blockMeta.entriesCount = bank.view.entriesCount := hcount
      rw [if_pos hcount] at h
      cases h
      refine ⟨?_, fun hc => (by cases hc)⟩
      dsimp only
      rw [if_pos hcount']
      have hstore : (bank.store ⟨arc, .block (bank.toBlock blockMeta)⟩
          (ParsedMessage.getAccount_eq_none rfl)).view = bank.view := by
        rw [view_store]
        simp [ParsedMessage.getTransaction, ParsedMessage.getEntry]
      rw [← hmeta]
      exact Prod.ext (congrArg (fun v => { v with blockCreated := true }) hstore.symm) rfl
    · have hcount' : ¬ (blockMeta.executedTransactionCount = bank.view.transactionsCount ∧
          blockMeta.entriesCount = bank.view.entriesCount) := hcount
      rw [if_neg hcount] at h
      cases h
      dsimp only
      rw [if_neg hcount']
      refine ⟨rfl, fun _ blockMeta' hb => ?_⟩
      rw [hview, hmeta] at hb
      cases hb
      exact hcount

/-- **A message of a bank**, on its view. -/
theorem view_getBlockMessage (hs : bank.view.Settled)
    (h : bank.getBlockMessage message arc = .ok (bank', block)) :
    bank.view.take message.message = (bank'.view, block.map (·.message.erase)) ∧
      bank'.view.Settled := by
  have hview : bank.view.blockCreated = bank.blockCreated := rfl
  unfold BankView.take
  rw [hview]
  rcases getBlockMessage_cases h with ⟨hacc, hfooter, rfl, rfl⟩ | ⟨-, hcreated, rfl, rfl⟩ |
    ⟨-, hcreated, mid, hmid, hcreate⟩
  · obtain ⟨a, message⟩ := message
    cases message <;> cases hfooter
    rename_i msg
    have hsame : (bank.store ⟨a, .blockFooter msg⟩ hacc).view = bank.view := by
      rw [view_store]
      simp [ParsedMessage.getTransaction, ParsedMessage.getEntry]
    rw [hsame]
    exact ⟨by split <;> rfl, hs⟩
  · rw [if_pos hcreated]
    exact ⟨rfl, hs⟩
  · rw [if_neg (by simp [hcreated])]
    obtain ⟨hblock, hsettled⟩ := view_createBlock hcreate
    refine ⟨?_, hsettled⟩
    rw [← hblock]
    obtain ⟨a, message⟩ := message
    cases message with
    | account msg =>
      cases hmid
      exact (BankView.createBlock_of_settled hs hcreated).symm.trans
        (congrArg BankView.createBlock (view_storeAccount _).symm)
    | transaction msg =>
      have hstore : (bank.store ⟨a, .transaction msg⟩ (ParsedMessage.getAccount_eq_none rfl)).view =
          { bank.view with transactions := bank.view.transactions ++ [msg] } := by
        rw [view_store]
        simp [ParsedMessage.getTransaction, ParsedMessage.getEntry]
      cases hmid
      exact congrArg (fun v => BankView.createBlock
        { v with transactionsCount := bank.transactionsCount + 1 }) hstore.symm
    | entry msg =>
      have hstore : (bank.store ⟨a, .entry msg⟩ (ParsedMessage.getAccount_eq_none rfl)).view =
          { bank.view with entries := bank.view.entries ++ [msg] } := by
        rw [view_store]
        simp [ParsedMessage.getTransaction, ParsedMessage.getEntry]
      cases hmid
      exact congrArg (fun v => BankView.createBlock
        { v with entriesCount := bank.entriesCount + 1 }) hstore.symm
    | blockMeta msg =>
      have hstore : (bank.store ⟨a, .blockMeta msg⟩ (ParsedMessage.getAccount_eq_none rfl)).view =
          bank.view := by
        rw [view_store]
        simp [ParsedMessage.getTransaction, ParsedMessage.getEntry]
      cases hmid
      exact congrArg (fun v => BankView.createBlock { v with blockMeta := some msg }) hstore.symm
    | _ => cases hmid

end BankInfo

/-! ### Slots -/

structure SlotView where
  cleared : Finset BankId
  banks : Option BankId → BankView

namespace SlotView

def new : SlotView := ⟨∅, fun _ => .new⟩

def Settled (v : SlotView) : Prop := ∀ bankId, (v.banks bankId).Settled

def take (v : SlotView) (message : Message) : SlotView × Option Message :=
  if message.isEntryUpdateParent then
    match message.bankId with
    | some bankId =>
      (⟨insert bankId v.cleared, Function.update v.banks (some bankId) .new⟩, none)
    | none => (v, none)
  else
    let (bank, block) := (v.banks message.bankId).take message
    (⟨v.cleared, Function.update v.banks message.bankId bank⟩, block)

/-- A message that is no status, with what it puts on processed. -/
def step : Step SlotView Message Message Panic := fun v message =>
  .ok ((v.take message).1, message.erase :: (v.take message).2.toList)

theorem settled_new : new.Settled := by
  intro bankId _ blockMeta hb
  cases hb

/-- An account update changes nothing here. -/
theorem step_account (v : SlotView) (msg : MessageAccount) :
    v.step (.account msg) = .ok (v, [(Message.account msg).erase]) := by
  have hbank : ∀ bank : BankView, bank.take (.account msg) = (bank, none) := by
    intro bank
    unfold BankView.take
    split <;> rfl
  unfold step take
  simp [hbank]

theorem run_accounts (v : SlotView) (msgs : List MessageAccount) :
    run step v (msgs.map .account) = .ok (v, msgs.map fun msg => (Message.account msg).erase) := by
  induction msgs with
  | nil => rfl
  | cons msg msgs ih =>
    rw [List.map_cons, run_cons_ok]
    exact ⟨v, _, _, step_account v msg, ih, rfl⟩

end SlotView

def SlotInfo.view (info : SlotInfo) : SlotView :=
  ⟨info.clearedBanks, fun bankId => (info.bank bankId).view⟩

/-- **A message of a slot**, on its view. -/
theorem SlotInfo.view_getBlockMessage {info info' : SlotInfo} {message : ParsedMessage} {arc : ℕ}
    {block : Option ParsedMessage} (hs : info.view.Settled)
    (h : info.getBlockMessage message arc = .ok (info', block)) :
    info.view.take message.message = (info'.view, block.map (·.message.erase)) ∧
      info'.view.Settled := by
  unfold SlotView.take
  rcases getBlockMessage_cases h with ⟨heup, rfl, rfl⟩ | ⟨heup, bank, hbank, rfl⟩
  · rw [if_pos heup, show message.message.bankId = message.bankId from rfl]
    cases message.bankId with
    | none => exact ⟨rfl, hs⟩
    | some b =>
      have hclear : (info.clear b).view =
          ⟨insert b info.clearedBanks, Function.update info.view.banks (some b) .new⟩ := by
        refine congrArg (SlotView.mk _) (funext fun bankId => ?_)
        by_cases hb : bankId = some b
        · subst hb
          simp [SlotInfo.bank, clear, SortedMap.get?_erase]
          rfl
        · simp [SlotInfo.bank, clear, SortedMap.get?_erase, hb, view]
      refine ⟨Prod.ext hclear.symm rfl, fun bankId => ?_⟩
      simp only [Option.map_some, Option.getD_some]
      rw [hclear]
      dsimp only
      by_cases hb : bankId = some b
      · subst hb
        rw [Function.update_self]
        exact SlotView.settled_new (some b)
      · simpa [hb] using hs bankId
  · obtain ⟨htake, hsettled⟩ := BankInfo.view_getBlockMessage (hs message.bankId) hbank
    have hinsert : ({ info with banks := info.banks.insert message.bankId bank } : SlotInfo).view =
        ⟨info.clearedBanks, Function.update info.view.banks message.bankId bank.view⟩ := by
      refine congrArg (SlotView.mk _) (funext fun bankId => ?_)
      by_cases hb : bankId = message.bankId
      · subst hb
        simp [SlotInfo.bank]
      · simp [SlotInfo.bank, SortedMap.get?_insert_of_ne _ _ hb, hb, view]
    rw [if_neg (Bool.eq_false_iff.mp heup), hinsert]
    constructor
    · have htake' : (info.view.banks message.message.bankId).take message.message =
          (bank.view, block.map (·.message.erase)) := htake
      rw [htake']
      rfl
    · intro bankId
      by_cases hb : bankId = message.bankId
      · subst hb
        simpa using hsettled
      · simpa [hb] using hs bankId

/-! ### The loop of a push -/

namespace Sender

/-- The view of a slot, of a new one if there is none. -/
def view (s : Sender) (slot : Slot) : SlotView :=
  ((s.slots.get? slot).map SlotInfo.view).getD .new

theorem isCleared_iff {s : Sender} {m : Message} : s.isCleared m ↔
    m.isEntryUpdateParent = false ∧ ∃ b, m.bankId = some b ∧ b ∈ (s.view m.slotOf).cleared := by
  unfold isCleared view
  cases m.bankId with
  | none => simp
  | some b =>
    cases s.slots.get? m.slotOf with
    | none => simp [SlotView.new]
    | some info => simp [SlotInfo.view]

end Sender

namespace PushState

variable {cfg : Config} {slot : Slot} {sourceName : SourceName} {st st' : PushState}
  {m : Message} {ms : List Message} {eff : List Effect}

theorem view_slotInfo (st : PushState) (slot : Slot) :
    st.sender.view slot = (st.slotInfo slot).view := by
  unfold Sender.view slotInfo
  cases st.sender.slots.get? slot with
  | none => rfl
  | some info => rfl

/-- What the loop of a push does without a journal, for messages that are no statuses. -/
structure Loop (slot : Slot) (st : PushState) (ms : List Message) (st' : PushState)
    (eff : List Effect) : Prop where
  noJournal : st'.replay.messages = none
  replay : st'.sender.replay = st.sender.replay
  clean : st'.cleanAfterFinalized = st.cleanAfterFinalized
  dedup : st'.sender.dedup = st.sender.dedup
  slotFinalized : st'.sender.slotFinalized = st.sender.slotFinalized
  slotDropped : st'.sender.slotDropped = st.sender.slotDropped
  contents : st'.sender.Contents
  keys : ∀ t, t ∈ st'.sender.slots.keys ↔ (t = slot ∧ ms ≠ []) ∨ t ∈ st.sender.slots.keys
  other : ∀ t, t ≠ slot → st'.sender.view t = st.sender.view t
  ofSlot : ∀ x ∈ stream .processed eff, x.slot = slot
  view : run SlotView.step (st.sender.view slot) ms =
    .ok (st'.sender.view slot, (stream .processed eff).map (·.message.erase))
  settled : (st'.sender.view slot).Settled

/-- One message. -/
theorem loop_pushMessage (hnone : st.replay.messages = none) (hm : m.isSlot = false)
    (hslot : m.slotOf = slot) (hcontents : st.sender.Contents)
    (hs : (st.sender.view slot).Settled)
    (h : st.pushMessage cfg slot sourceName m = .ok (st', eff)) : Loop slot st [m] st' eff := by
  obtain ⟨hcontents', hofSlot⟩ := hcontents.pushMessage hslot h
  obtain ⟨info, block, kept, hstep⟩ := pushMessage_message hm h
  obtain ⟨hkept, hnone'⟩ := hstep.kept_fresh hnone
  rw [view_slotInfo] at hs
  obtain ⟨htake, hsettled⟩ := SlotInfo.view_getBlockMessage hs hstep.receive
  have hview : st'.sender.view slot = info.view := by
    rw [Sender.view, hstep.slots, SortedMap.get?_insert_self]
    rfl
  constructor
  · exact hnone'
  · exact hstep.replay
  · exact hstep.clean
  · exact hstep.dedup
  · exact hstep.slotFinalized
  · exact hstep.slotDropped
  · exact hcontents'
  · intro t
    rw [hstep.slots, SortedMap.mem_keys_insert]
    simp
  · intro t ht
    rw [Sender.view, hstep.slots, SortedMap.get?_insert_of_ne _ _ ht, Sender.view]
  · exact hofSlot .processed
  · rw [run_singleton, SlotView.step, view_slotInfo, htake, hview, hstep.processed, hkept]
    cases block <;> rfl
  · exact hview ▸ hsettled

theorem loop_nil (hnone : st.replay.messages = none) (hcontents : st.sender.Contents)
    (hs : (st.sender.view slot).Settled) : Loop slot st [] st [] := by
  constructor
  all_goals first | assumption | rfl | simp

/-- **The loop refines the view of its slot.** -/
theorem loop_run (hnone : st.replay.messages = none) (hms : ∀ m ∈ ms, m.isSlot = false)
    (hslot : ∀ m ∈ ms, m.slotOf = slot) (hcontents : st.sender.Contents)
    (hs : (st.sender.view slot).Settled)
    (h : run (pushMessage cfg slot sourceName) st ms = .ok (st', eff)) : Loop slot st ms st' eff := by
  refine run_induction (P := fun ms st' eff => (∀ m ∈ ms, m.isSlot = false) →
    (∀ m ∈ ms, m.slotOf = slot) → Loop slot st ms st' eff) (fun _ _ => loop_nil hnone hcontents hs)
    ?_ h hms hslot
  intro ms st₁ eff₁ m st₂ eff₂ _ ih hpush hms hslot
  have h₁ := ih (fun m hm => hms m (List.mem_append_left _ hm))
    fun m hm => hslot m (List.mem_append_left _ hm)
  have h₂ := loop_pushMessage h₁.noJournal (hms m (by simp)) (hslot m (by simp)) h₁.contents
    h₁.settled hpush
  constructor
  · exact h₂.noJournal
  · exact h₂.replay.trans h₁.replay
  · exact h₂.clean.trans h₁.clean
  · exact h₂.dedup.trans h₁.dedup
  · exact h₂.slotFinalized.trans h₁.slotFinalized
  · exact h₂.slotDropped.trans h₁.slotDropped
  · exact h₂.contents
  · intro t
    rw [h₂.keys, h₁.keys]
    simp only [ne_eq, List.cons_ne_self, not_false_eq_true, and_true, List.append_eq_nil_iff,
      and_false]
    tauto
  · exact fun t ht => (h₂.other t ht).trans (h₁.other t ht)
  · intro x hx
    rw [stream_append, List.mem_append] at hx
    exact hx.elim (h₁.ofSlot x) (h₂.ofSlot x)
  · rw [stream_append, List.map_append]
    exact run_append.mpr ⟨_, _, _, h₁.view, h₂.view, rfl⟩
  · exact h₂.settled

end PushState

end Richat
