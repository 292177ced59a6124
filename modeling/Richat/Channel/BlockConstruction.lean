import Richat.Channel.BankRun
import Mathlib.Data.List.MinMax

/-!
# The block of a bank

Whatever the messages of a bank are and in whatever order they come, its `Block` is produced once, with the first
message after which the block meta is known and its counts are met (`Complete`). It has the transactions and entries
in the order in which they came, and of the updates of an account the one with the highest write version, the first of
them for equal ones (`LatestOf`).
-/

namespace Richat

open Lib

def ParsedMessage.getBlockMeta (msg : ParsedMessage) : Option MessageBlockMeta :=
  match msg.message with
  | .blockMeta m => some m
  | _ => none

namespace BankInfo

/-! ### What is promised -/

/-- The messages that a bank is fed. -/
def isBankMessage : Message → Bool
  | .account _ | .transaction _ | .entry _ | .blockMeta _ | .blockFooter _ => true
  | _ => false

/-- The block meta that came last. -/
def lastMeta (l : List ParsedMessage) : Option MessageBlockMeta := (l.filterMap (·.getBlockMeta)).getLast?

/-- A meta is known and as many transactions and entries came as it announces. -/
def Complete (l : List ParsedMessage) : Prop :=
  ∃ blockMeta, lastMeta l = some blockMeta ∧
    blockMeta.executedTransactionCount = (l.filterMap (·.getTransaction)).length ∧
    blockMeta.entriesCount = (l.filterMap (·.getEntry)).length

/-- Of each public key the update with the highest write version, the first one for equal ones. -/
structure LatestOf (received accounts : List MessageAccount) : Prop where
  sublist : accounts.Sublist received
  latest : ∀ pubkey, accounts.filter (·.pubkey = pubkey) =
    ((received.filter (·.pubkey = pubkey)).argmax (·.writeVersion)).toList

structure IsBlockOf (l : List ParsedMessage) (block : MessageBlock) : Prop where
  transactions : block.transactions = l.filterMap (·.getTransaction)
  entries : block.entries = l.filterMap (·.getEntry)
  accounts : LatestOf (l.filterMap (·.getAccount)) block.accounts
  blockMeta : lastMeta l = some block.blockMeta
  createdAt : block.createdAt = block.blockMeta.createdAt

/-- Every index that is stored is one of the messages. -/
def InRange (bank : BankInfo) : Prop :=
  ∀ pubkey version idx, bank.accountsDedup pubkey = some (version, idx) → idx < bank.messages.length

theorem inRange (bank : BankInfo) : bank.InRange := by
  intro pubkey version idx h
  obtain ⟨_, _, hget, -⟩ := (bank.indexed pubkey version idx).mp h
  exact (List.getElem?_eq_some_iff.mp hget).1

/-! ### The updates of an account -/

section

variable {received accounts : List MessageAccount} {msg : MessageAccount}

theorem latestOf_nil : LatestOf [] [] := ⟨List.Sublist.refl _, fun _ => rfl⟩

theorem filter_append_ne {pubkey : Pubkey} (h : msg.pubkey ≠ pubkey) (l : List MessageAccount) :
    (l ++ [msg]).filter (·.pubkey = pubkey) = l.filter (·.pubkey = pubkey) := by
  simp [List.filter_append, h]

theorem filter_append_eq (l : List MessageAccount) :
    (l ++ [msg]).filter (·.pubkey = msg.pubkey) = l.filter (·.pubkey = msg.pubkey) ++ [msg] := by
  simp [List.filter_append]

/-- The update takes the place of what there was of its account. -/
theorem LatestOf.replace (h : LatestOf received accounts)
    (hlower : ∀ old ∈ accounts, old.pubkey = msg.pubkey → old.writeVersion < msg.writeVersion) :
    LatestOf (received ++ [msg]) (accounts.filter (·.pubkey ≠ msg.pubkey) ++ [msg]) where
  sublist := (List.filter_sublist.trans h.sublist).append_right [msg]
  latest := by
    intro pubkey
    by_cases hkey : msg.pubkey = pubkey
    · subst hkey
      have hnone : (accounts.filter (·.pubkey ≠ msg.pubkey)).filter (·.pubkey = msg.pubkey) = [] := by
        simp [List.filter_filter]
      rw [filter_append_eq, filter_append_eq, hnone, List.argmax_concat]
      cases hmax : (received.filter (·.pubkey = msg.pubkey)).argmax (·.writeVersion) with
      | none => rfl
      | some old =>
        have hmem : old ∈ accounts.filter (·.pubkey = msg.pubkey) := by simp [h.latest, hmax]
        obtain ⟨hold, hpubkey⟩ := List.mem_filter.mp hmem
        have hlt := hlower old hold (by simpa using hpubkey)
        simp [hlt]
    · have hkept : (accounts.filter (·.pubkey ≠ msg.pubkey)).filter (·.pubkey = pubkey) =
          accounts.filter (·.pubkey = pubkey) := by
        rw [List.filter_filter]
        refine List.filter_congr fun old _ => ?_
        by_cases hold : old.pubkey = pubkey
        · simp [hold, Ne.symm hkey]
        · simp [hold]
      rw [filter_append_ne hkey, filter_append_ne hkey, hkept, h.latest]

/-- The update is not newer than what there is of its account. -/
theorem LatestOf.keep (h : LatestOf received accounts) {old : MessageAccount} (hold : old ∈ accounts)
    (hkey : old.pubkey = msg.pubkey) (hle : msg.writeVersion ≤ old.writeVersion) :
    LatestOf (received ++ [msg]) accounts where
  sublist := h.sublist.trans (List.sublist_append_left _ _)
  latest := by
    intro pubkey
    by_cases hpubkey : msg.pubkey = pubkey
    · subst hpubkey
      have hmem : old ∈ accounts.filter (·.pubkey = msg.pubkey) := List.mem_filter.mpr ⟨hold, by simpa using hkey⟩
      rw [h.latest] at hmem
      have hmax := Option.mem_toList.mp hmem
      rw [filter_append_eq, List.argmax_concat, h.latest, Option.mem_def.mp hmax]
      simp [Nat.not_lt_of_le hle]
    · rw [filter_append_ne hpubkey, h.latest]

end

/-! ### What a bank stores -/

/-- The bank has what came so far. -/
structure Stores (l : List ParsedMessage) (bank : BankInfo) : Prop where
  transactions : bank.stored.filterMap (·.getTransaction) = l.filterMap (·.getTransaction)
  entries : bank.stored.filterMap (·.getEntry) = l.filterMap (·.getEntry)
  accounts : LatestOf (l.filterMap (·.getAccount)) (bank.stored.filterMap (·.getAccount))
  blockMeta : bank.blockMeta = lastMeta l
  transactionsCount : bank.transactionsCount = (l.filterMap (·.getTransaction)).length
  entriesCount : bank.entriesCount = (l.filterMap (·.getEntry)).length

theorem stores_new : Stores [] .new := ⟨rfl, rfl, latestOf_nil, rfl, rfl, rfl⟩

variable {bank bank' : BankInfo} {l : List ParsedMessage} {x : ParsedMessage}

/-- What is read of the stored messages. -/
theorem filterMap_stored {α : Type} (f : ParsedMessage → Option α) :
    bank.stored.filterMap f = bank.messages.filterMap (·.bind f) := by
  rw [stored, List.filterMap_filterMap]
  rfl

/-- A hole in the place of what is not read. -/
theorem filterMap_set_of_none {α β : Type} {f : α → Option β} {hole : α} (hhole : f hole = none) {xs : List α}
    {idx : ℕ} (h : ∀ y, xs[idx]? = some y → f y = none) : (xs.set idx hole).filterMap f = xs.filterMap f := by
  induction xs generalizing idx with
  | nil => rfl
  | cons y xs ih =>
    cases idx with
    | zero =>
      have hy := h y rfl
      simp [hhole, hy]
    | succ idx =>
      rw [List.set_cons_succ, List.filterMap_cons, List.filterMap_cons, ih fun z hz => h z (by simpa using hz)]

/-- A hole in the only place of a kind. -/
theorem filterMap_set_of_unique {α β : Type} {f : α → Option β} {p : β → Bool} {hole : α} (hhole : f hole = none)
    {xs : List α} {idx : ℕ} (hidx : ∀ y ∈ xs[idx]?, ∀ b ∈ f y, p b = false)
    (h : ∀ i y, xs[i]? = some y → i ≠ idx → ∀ b ∈ f y, p b = true) :
    (xs.set idx hole).filterMap f = (xs.filterMap f).filter p := by
  induction xs generalizing idx with
  | nil => rfl
  | cons y xs ih =>
    cases idx with
    | zero =>
      have hrest : (xs.filterMap f).filter p = xs.filterMap f := by
        refine List.filter_eq_self.mpr fun b hb => ?_
        obtain ⟨z, hz, hfz⟩ := List.mem_filterMap.mp hb
        obtain ⟨i, hi⟩ := List.mem_iff_getElem?.mp hz
        exact h (i + 1) z (by simpa using hi) (by simp) b hfz
      rw [List.set_cons_zero, List.filterMap_cons, List.filterMap_cons, hhole]
      cases hy : f y with
      | none => exact hrest.symm
      | some b =>
        have hb := hidx y rfl b hy
        simp [hb, hrest]
    | succ idx =>
      have ih' := ih (fun z hz => hidx z (by simpa using hz))
        fun i z hz hne => h (i + 1) z (by simpa using hz) (by simpa using hne)
      rw [List.set_cons_succ, List.filterMap_cons, List.filterMap_cons, ih']
      cases hy : f y with
      | none => rfl
      | some b =>
        have hb := h 0 y rfl (by simp) b hy
        simp [hb]

/-- An account update that is stored changes only what there is of its account. -/
theorem values_storeAccount {α : Type} (f : ParsedMessage → Option α) {msg : MessageAccount}
    (h : x.getAccount = some msg) (hf : ∀ m : ParsedMessage, m.getAccount ≠ none → f m = none) :
    (bank.storeAccount x msg h).stored.filterMap f = bank.stored.filterMap f := by
  have hx : f x = none := hf x (by simp [h])
  rw [filterMap_stored, filterMap_stored]
  have happend : (bank.messages ++ [some x]).filterMap (·.bind f) = bank.messages.filterMap (·.bind f) := by
    simp [List.filterMap_append, hx]
  unfold storeAccount insertAccount
  dsimp only
  cases hentry : bank.accountsDedup msg.pubkey with
  | none => exact happend
  | some entry =>
    obtain ⟨old, hold, hget, haccount, -, -⟩ := (bank.indexed msg.pubkey entry.1 entry.2).mp hentry
    have hlt := (List.getElem?_eq_some_iff.mp hget).1
    dsimp only
    split
    · rw [filterMap_set_of_none rfl, happend]
      intro y hy
      rw [List.getElem?_append_left hlt, hget] at hy
      obtain rfl := Option.some.inj hy
      exact hf old (by simp [haccount])
    · rw [filterMap_set_of_none rfl, happend]
      intro y hy
      rw [List.getElem?_append_right le_rfl, Nat.sub_self] at hy
      obtain rfl := Option.some.inj hy
      exact hx

theorem latestOf_storeAccount {received : List MessageAccount} {msg : MessageAccount} (h : x.getAccount = some msg)
    (hlatest : LatestOf received (bank.stored.filterMap (·.getAccount))) :
    LatestOf (received ++ [msg]) ((bank.storeAccount x msg h).stored.filterMap (·.getAccount)) := by
  have hindex : ∀ {i y old}, bank.messages[i]? = some y → old ∈ y.bind (·.getAccount) →
      bank.accountsDedup old.pubkey = some (old.writeVersion, i) := by
    intro i y old hi hold
    obtain ⟨m, rfl, hm⟩ := Option.bind_eq_some_iff.mp hold
    exact (bank.indexed _ _ _).mpr ⟨m, old, hi, hm, rfl, rfl⟩
  have hmem : ∀ {old}, old ∈ bank.stored.filterMap (·.getAccount) →
      ∃ i, bank.accountsDedup old.pubkey = some (old.writeVersion, i) := by
    intro old hold
    rw [filterMap_stored] at hold
    obtain ⟨y, hy, hyold⟩ := List.mem_filterMap.mp hold
    obtain ⟨i, hi⟩ := List.mem_iff_getElem?.mp hy
    exact ⟨i, hindex hi hyold⟩
  have hlast : [some x].filterMap (·.bind (·.getAccount)) = [msg] := by simp [h]
  rw [filterMap_stored]
  unfold storeAccount insertAccount
  dsimp only
  cases hentry : bank.accountsDedup msg.pubkey with
  | none =>
    have hnew : ∀ old ∈ bank.stored.filterMap (·.getAccount), old.pubkey ≠ msg.pubkey := by
      intro old hold hkey
      obtain ⟨i, hi⟩ := hmem hold
      rw [hkey, hentry] at hi
      cases hi
    have hself : (bank.stored.filterMap (·.getAccount)).filter (·.pubkey ≠ msg.pubkey) =
        bank.stored.filterMap (·.getAccount) := List.filter_eq_self.mpr fun old hold => by simpa using hnew old hold
    have hreplace := hlatest.replace fun old hold hkey => absurd hkey (hnew old hold)
    rw [hself, filterMap_stored] at hreplace
    rw [List.filterMap_append, hlast]
    exact hreplace
  | some entry =>
    obtain ⟨prev, old, hget, hold, hkey, hversion⟩ := (bank.indexed msg.pubkey entry.1 entry.2).mp hentry
    have hlt := (List.getElem?_eq_some_iff.mp hget).1
    -- no other update of the account is stored
    have hunique : ∀ {i y other}, bank.messages[i]? = some y → other ∈ y.bind (·.getAccount) →
        other.pubkey = msg.pubkey → other.writeVersion = entry.1 ∧ i = entry.2 := by
      intro i y other hi hother hsame
      have hdedup := hindex hi hother
      rw [hsame, hentry] at hdedup
      exact ⟨(congrArg Prod.fst (Option.some.inj hdedup)).symm, (congrArg Prod.snd (Option.some.inj hdedup)).symm⟩
    dsimp only
    split
    · rename_i hless
      have hset : (bank.messages.set entry.2 none).filterMap (·.bind (·.getAccount)) =
          (bank.stored.filterMap (·.getAccount)).filter (·.pubkey ≠ msg.pubkey) := by
        rw [filterMap_stored]
        refine filterMap_set_of_unique rfl (fun y hy other hother => ?_) fun i y hi hne other hother => ?_
        · obtain rfl := Option.some.inj (hget.symm.trans hy)
          obtain rfl := Option.some.inj (hold.symm.trans hother)
          simpa using hkey
        · simpa using fun hsame => hne (hunique hi hother hsame).2
      rw [List.set_append_left _ _ hlt, List.filterMap_append, hset, hlast]
      refine hlatest.replace fun other hother hsame => ?_
      rw [filterMap_stored] at hother
      obtain ⟨y, hy, hyother⟩ := List.mem_filterMap.mp hother
      obtain ⟨i, hi⟩ := List.mem_iff_getElem?.mp hy
      rw [(hunique hi hyother hsame).1]
      exact hless
    · rename_i hless
      have hset : ((bank.messages ++ [some x]).set bank.messages.length none).filterMap (·.bind (·.getAccount)) =
          bank.stored.filterMap (·.getAccount) := by
        rw [List.set_append_right _ _ le_rfl, Nat.sub_self, List.filterMap_append, filterMap_stored]
        simp
      have hmemOld : old ∈ bank.stored.filterMap (·.getAccount) := by
        rw [filterMap_stored]
        exact List.mem_filterMap.mpr ⟨some prev, List.mem_of_getElem? hget, hold⟩
      rw [hset]
      exact hlatest.keep hmemOld hkey (hversion ▸ Nat.le_of_not_lt hless)

/-- What is read of all messages, with one more. -/
theorem filterMap_snoc {α : Type} (f : ParsedMessage → Option α) (l : List ParsedMessage) (x : ParsedMessage) :
    (l ++ [x]).filterMap f = l.filterMap f ++ (f x).toList := by
  cases hx : f x <;> simp [List.filterMap_append, hx]

theorem lastMeta_snoc (l : List ParsedMessage) (x : ParsedMessage) :
    lastMeta (l ++ [x]) = x.getBlockMeta.or (lastMeta l) := by
  rw [lastMeta, filterMap_snoc, lastMeta]
  cases x.getBlockMeta with
  | none => rw [Option.toList_none, List.append_nil, Option.none_or]
  | some blockMeta => rw [Option.toList_some, List.getLast?_concat, Option.some_or]

/-- A message that is no account update is stored behind the others. -/
theorem Stores.push (h : Stores l bank) (hacc : x.getAccount = none) (hstored : bank'.stored = bank.stored ++ [x])
    (hmeta : bank'.blockMeta = x.getBlockMeta.or bank.blockMeta)
    (htransactions : bank'.transactionsCount = bank.transactionsCount + x.getTransaction.toList.length)
    (hentries : bank'.entriesCount = bank.entriesCount + x.getEntry.toList.length) : Stores (l ++ [x]) bank' where
  transactions := by rw [hstored, filterMap_snoc, filterMap_snoc, h.transactions]
  entries := by rw [hstored, filterMap_snoc, filterMap_snoc, h.entries]
  accounts := by
    rw [hstored, filterMap_snoc, filterMap_snoc, hacc, Option.toList_none, List.append_nil, List.append_nil]
    exact h.accounts
  blockMeta := by rw [hmeta, lastMeta_snoc, h.blockMeta]
  transactionsCount := by rw [htransactions, filterMap_snoc, List.length_append, h.transactionsCount]
  entriesCount := by rw [hentries, filterMap_snoc, List.length_append, h.entriesCount]

theorem others_of_account {m : ParsedMessage} (h : m.getAccount ≠ none) :
    m.getTransaction = none ∧ m.getEntry = none ∧ m.getBlockMeta = none := by
  obtain ⟨a, message⟩ := m
  cases message with
  | account => exact ⟨rfl, rfl, rfl⟩
  | _ => exact absurd (ParsedMessage.getAccount_eq_none rfl) h

theorem Stores.account (h : Stores l bank) {msg : MessageAccount} (hx : x.getAccount = some msg) :
    Stores (l ++ [x]) (bank.storeAccount x msg hx) := by
  obtain ⟨htransaction, hentry, hmeta⟩ := others_of_account (show x.getAccount ≠ none by simp [hx])
  constructor
  · rw [values_storeAccount (·.getTransaction) hx fun m hm => (others_of_account hm).1, filterMap_snoc,
      htransaction, h.transactions]
    exact (List.append_nil _).symm
  · rw [values_storeAccount (·.getEntry) hx fun m hm => (others_of_account hm).2.1, filterMap_snoc, hentry,
      h.entries]
    exact (List.append_nil _).symm
  · rw [filterMap_snoc, hx]
    exact latestOf_storeAccount hx h.accounts
  · rw [lastMeta_snoc, hmeta]
    exact h.blockMeta
  · rw [filterMap_snoc, List.length_append, htransaction]
    exact h.transactionsCount
  · rw [filterMap_snoc, List.length_append, hentry]
    exact h.entriesCount

/-- Every message of the bank but a footer is stored. -/
theorem Stores.storeMessage (h : Stores l bank) (hkind : isBankMessage x.message = true)
    (hfooter : isBlockFooter x.message = false) : ∃ mid, bank.storeMessage x = .ok mid ∧ Stores (l ++ [x]) mid := by
  obtain ⟨a, message⟩ := x
  cases message with
  | account msg => exact ⟨_, rfl, h.account rfl⟩
  | transaction msg =>
    exact ⟨_, rfl, h.push rfl (stored_store (ParsedMessage.getAccount_eq_none rfl)) rfl rfl rfl⟩
  | entry msg => exact ⟨_, rfl, h.push rfl (stored_store (ParsedMessage.getAccount_eq_none rfl)) rfl rfl rfl⟩
  | blockMeta msg => exact ⟨_, rfl, h.push rfl (stored_store (ParsedMessage.getAccount_eq_none rfl)) rfl rfl rfl⟩
  | blockFooter msg => cases hfooter
  | slot | block | entryUpdateParent => cases hkind

theorem Stores.footer (h : Stores l bank) (hfooter : isBlockFooter x.message = true) (hacc : x.getAccount = none) :
    Stores (l ++ [x]) (bank.store x hacc) := by
  obtain ⟨a, message⟩ := x
  cases message with
  | blockFooter msg => exact h.push rfl (stored_store hacc) rfl rfl rfl
  | _ => cases hfooter

/-! ### One message -/

theorem Stores.complete_iff (h : Stores l bank) : Complete l ↔ ∃ blockMeta, bank.blockMeta = some blockMeta ∧
    blockMeta.executedTransactionCount = bank.transactionsCount ∧ blockMeta.entriesCount = bank.entriesCount := by
  rw [h.blockMeta, h.transactionsCount, h.entriesCount]
  rfl

theorem Stores.isBlockOf (h : Stores l bank) {blockMeta : MessageBlockMeta} (hmeta : bank.blockMeta = some blockMeta) :
    IsBlockOf l (bank.toBlock blockMeta) :=
  ⟨h.transactions, h.entries, h.accounts, h.blockMeta ▸ hmeta, rfl⟩

/-- The block is created if the messages are complete. -/
theorem Stores.createBlock (h : Stores l bank) (arc : ℕ) :
    (Complete l ∧ ∃ block, IsBlockOf l block ∧ (bank.createBlock arc).1.blockCreated = true ∧
      (bank.createBlock arc).2 = some ⟨arc, .block block⟩) ∨ (¬ Complete l ∧ bank.createBlock arc = (bank, none)) := by
  rw [h.complete_iff]
  unfold BankInfo.createBlock
  cases hmeta : bank.blockMeta with
  | none => exact .inr ⟨by simp, rfl⟩
  | some blockMeta =>
    dsimp only
    split
    · rename_i hcounts
      exact .inl ⟨⟨blockMeta, rfl, hcounts⟩, _, h.isBlockOf hmeta, rfl, rfl⟩
    · rename_i hcounts
      refine .inr ⟨?_, rfl⟩
      rintro ⟨blockMeta', hmeta', hcounts'⟩
      obtain rfl := Option.some.inj hmeta'
      exact hcounts hcounts'

/-- A footer completes nothing. -/
theorem complete_footer (hfooter : isBlockFooter x.message = true) : Complete (l ++ [x]) ↔ Complete l := by
  obtain ⟨a, message⟩ := x
  cases message with
  | blockFooter msg =>
    unfold Complete
    rw [lastMeta_snoc, filterMap_snoc, filterMap_snoc]
    simp only [ParsedMessage.getBlockMeta, ParsedMessage.getTransaction, ParsedMessage.getEntry, Option.none_or,
      Option.toList_none, List.append_nil]
  | _ => cases hfooter

theorem getBlockMessage_footer (bank : BankInfo) (hfooter : isBlockFooter x.message = true) (arc : ℕ) :
    ∃ hacc : x.getAccount = none, bank.getBlockMessage x arc = .ok (bank.store x hacc, none) := by
  obtain ⟨a, message⟩ := x
  cases message with
  | blockFooter msg => exact ⟨rfl, rfl⟩
  | _ => cases hfooter

theorem getBlockMessage_created (hfooter : isBlockFooter x.message = false) (hcreated : bank.blockCreated = true)
    (arc : ℕ) : bank.getBlockMessage x arc = .ok (bank, none) := by
  obtain ⟨a, message⟩ := x
  cases message with
  | blockFooter msg => cases hfooter
  | _ => exact if_pos hcreated

theorem getBlockMessage_stored {mid : BankInfo} (hfooter : isBlockFooter x.message = false)
    (hcreated : bank.blockCreated = false) (hmid : bank.storeMessage x = .ok mid) (arc : ℕ) :
    bank.getBlockMessage x arc = .ok (mid.createBlock arc) := by
  have hcreated' : ¬ bank.blockCreated = true := by simp [hcreated]
  obtain ⟨a, message⟩ := x
  cases message with
  | blockFooter msg => cases hfooter
  | _ =>
    simp only [getBlockMessage, if_neg hcreated']
    rw [hmid]

/-! ### Runs -/

/-- The messages are complete for the first time with the last one. -/
def FirstComplete (l : List ParsedMessage) (x : ParsedMessage) : Prop :=
  Complete (l ++ [x]) ∧ ∀ pre, pre <+: l → ¬ Complete pre

/-- A bank after its messages: it has them all, or its block was created. -/
def After (l : List ParsedMessage) (bank : BankInfo) (blocks : List ParsedMessage) : Prop :=
  (bank.blockCreated = false ∧ blocks = [] ∧ Stores l bank ∧ ∀ pre, pre <+: l → ¬ Complete pre) ∨
    (bank.blockCreated = true ∧ blocks.length = 1 ∧ ∃ pre, pre <+: l ∧ Complete pre)

theorem after_new : After [] .new [] := by
  refine .inl ⟨rfl, rfl, stores_new, fun pre hpre hcomplete => ?_⟩
  obtain rfl := List.prefix_nil.mp hpre
  obtain ⟨blockMeta, hmeta, -⟩ := hcomplete
  cases hmeta

/-- The prefixes of a list with one more. -/
theorem forall_prefix_snoc {p : List ParsedMessage → Prop} :
    (∀ pre, pre <+: l ++ [x] → p pre) ↔ (∀ pre, pre <+: l → p pre) ∧ p (l ++ [x]) := by
  simp only [List.prefix_concat_iff, or_imp, forall_and, forall_eq, and_comm]

/-- What the step of a message gives. -/
theorem After.step {blocks : List ParsedMessage} (h : After l bank blocks) (hkind : isBankMessage x.message = true) :
    ∃ bank' out, BankInfo.step bank x = .ok (bank', out) ∧ After (l ++ [x]) bank' (blocks ++ out) ∧
      (out ≠ [] ↔ FirstComplete l x) ∧
        ∀ b ∈ out, ∃ block, b = ⟨x.arc + 1, .block block⟩ ∧ IsBlockOf (l ++ [x]) block := by
  rcases h with ⟨hcreated, rfl, hstores, hnot⟩ | ⟨hcreated, hlen, pre, hpre, hcomplete⟩
  · by_cases hfooter : isBlockFooter x.message = true
    · -- a footer is stored and completes nothing
      have hnot' := forall_prefix_snoc.mpr ⟨hnot, fun h => hnot l List.prefix_rfl ((complete_footer hfooter).mp h)⟩
      obtain ⟨hacc, hget⟩ := getBlockMessage_footer bank hfooter (x.arc + 1)
      have hstores' := hstores.footer hfooter hacc
      refine ⟨_, [], step_eq_ok.mpr ⟨none, hget, rfl⟩, .inl ⟨hcreated, rfl, hstores', hnot'⟩, ?_, by simp⟩
      exact iff_of_false (by simp) fun hfirst => hnot' _ List.prefix_rfl hfirst.1
    · rw [Bool.not_eq_true] at hfooter
      obtain ⟨mid, hmid, hstores'⟩ := hstores.storeMessage hkind hfooter
      have hget := getBlockMessage_stored hfooter hcreated hmid (x.arc + 1)
      rcases hstores'.createBlock (x.arc + 1) with ⟨hcomplete, block, hblock, hmidCreated, hout⟩ | ⟨hnot', hsame⟩
      · have hget' : bank.getBlockMessage x (x.arc + 1) =
            .ok ((mid.createBlock (x.arc + 1)).1, some ⟨x.arc + 1, .block block⟩) := by
          rw [hget, ← hout]
        refine ⟨_, [⟨x.arc + 1, .block block⟩], step_eq_ok.mpr ⟨_, hget', rfl⟩,
          .inr ⟨hmidCreated, rfl, _, List.prefix_rfl, hcomplete⟩, iff_of_true (by simp) ⟨hcomplete, hnot⟩, ?_⟩
        intro b hb
        exact ⟨block, List.mem_singleton.mp hb, hblock⟩
      · rw [hsame] at hget
        refine ⟨mid, [], step_eq_ok.mpr ⟨none, hget, rfl⟩, .inl ⟨?_, rfl, hstores', ?_⟩, ?_, by simp⟩
        · rw [blockCreated_storeMessage hmid, hcreated]
        · exact forall_prefix_snoc.mpr ⟨hnot, hnot'⟩
        · exact iff_of_false (by simp) fun hfirst => hnot' hfirst.1
  · have hnotFirst : ¬ FirstComplete l x := fun hfirst => hfirst.2 pre hpre hcomplete
    have hstep : ∃ bank', bank'.blockCreated = true ∧ BankInfo.step bank x = .ok (bank', []) := by
      by_cases hfooter : isBlockFooter x.message = true
      · obtain ⟨hacc, hget⟩ := getBlockMessage_footer bank hfooter (x.arc + 1)
        exact ⟨bank.store x hacc, hcreated, step_eq_ok.mpr ⟨none, hget, rfl⟩⟩
      · rw [Bool.not_eq_true] at hfooter
        exact ⟨bank, hcreated, step_eq_ok.mpr ⟨none, getBlockMessage_created hfooter hcreated _, rfl⟩⟩
    obtain ⟨bank', hcreated', hstep⟩ := hstep
    refine ⟨bank', [], hstep, .inr ⟨hcreated', by simpa using hlen, pre, ?_, hcomplete⟩, ?_, by simp⟩
    · exact hpre.trans (List.prefix_append l [x])
    · exact iff_of_false (by simp) hnotFirst

theorem run_after (hkinds : ∀ m ∈ l, isBankMessage m.message = true) :
    ∃ bank blocks, run step .new l = .ok (bank, blocks) ∧ After l bank blocks := by
  induction l using List.reverseRecOn with
  | nil => exact ⟨.new, [], rfl, after_new⟩
  | append_singleton l x ih =>
    obtain ⟨bank, blocks, hrun, hafter⟩ := ih fun m hm => hkinds m (List.mem_append_left _ hm)
    obtain ⟨bank', out, hstep, hafter', -⟩ := hafter.step (hkinds x (by simp))
    exact ⟨bank', _, run_snoc.mpr ⟨bank, blocks, out, hrun, hstep, rfl⟩, hafter'⟩

end BankInfo

end Richat
