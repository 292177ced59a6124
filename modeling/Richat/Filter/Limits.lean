import Richat.Filter.DataSlices

/-!
# What the limits keep away

A filter that the limits accept names no rejected public key and says what it wants where it has to (`Respects`), and
the updates of a block contain accounts and transactions only where the limits allow them (`BlockRespects`). For the
entries of a block the check asks the limit of the accounts once more.
-/

namespace Richat.Filter

open Lib ConfigLimits

/-! ### What is promised -/

/-- Of the filters of transactions. -/
structure TransactionsRespect (limits : ConfigLimitsTransactions) (filter : ConfigFilterTransactions) : Prop where
  accountInclude : ∀ pubkey ∈ filter.accountInclude, pubkey ∉ limits.accountIncludeReject
  any : limits.any = false → filter.vote ≠ none ∨ filter.failed ≠ none ∨ filter.accountInclude ≠ [] ∨
    filter.accountExclude ≠ [] ∨ filter.accountRequired ≠ []

/-- The public keys of a filter that is accepted. -/
structure Respects (limits : ConfigLimits) (config : ConfigFilter) : Prop where
  account : ∀ entry ∈ config.accounts, ∀ pubkey ∈ entry.2.account, pubkey ∉ limits.accounts.accountReject
  owner : ∀ entry ∈ config.accounts, ∀ pubkey ∈ entry.2.owner, pubkey ∉ limits.accounts.ownerReject
  accountsAny : limits.accounts.any = false → ∀ entry ∈ config.accounts, entry.2.account ≠ [] ∨ entry.2.owner ≠ []
  transactions : ∀ entry ∈ config.transactions, TransactionsRespect limits.transactions entry.2
  transactionsStatus : ∀ entry ∈ config.transactionsStatus, TransactionsRespect limits.transactionsStatus entry.2
  blocks : ∀ entry ∈ config.blocks, ∀ pubkey ∈ entry.2.accountInclude, pubkey ∉ limits.blocks.accountIncludeReject
  blocksAny : limits.blocks.accountIncludeAny = false → ∀ entry ∈ config.blocks, entry.2.accountInclude ≠ []

/-- What an update of a block contains. -/
def BlockRespects (limits : ConfigLimitsBlocks) : FilteredUpdateType → Prop
  | .block _ accounts transactions _ _ =>
    (limits.includeAccounts = false → accounts = []) ∧ (limits.includeTransactions = false → transactions = [])
  | _ => True

/-! ### The checks -/

section

variable {len max : ℕ} {isEmpty any : Bool} {pubkeys : List Pubkey} {set : Finset Pubkey}

theorem checkAny_eq_ok : checkAny isEmpty any = .ok () ↔ (any = false → isEmpty = false) := by
  cases isEmpty <;> cases any <;> simp [checkAny]

theorem forM_checkPubkeyReject : pubkeys.forM (checkPubkeyReject · set) = .ok () ↔ ∀ pubkey ∈ pubkeys, pubkey ∉ set := by
  rw [forM_eq_ok]
  refine forall₂_congr fun pubkey _ => ?_
  by_cases hmem : pubkey ∈ set <;> simp [checkPubkeyReject, hmem]

theorem isEmpty_eq_false {α : Type} {xs : List α} : xs.isEmpty = false ↔ xs ≠ [] := by
  cases xs <;> simp

end

theorem ConfigLimitsTransactions.checkFilter_respects {limits : ConfigLimitsTransactions} {nameMax : ℕ}
    {filters : List (String × ConfigFilterTransactions)} (h : limits.checkFilter nameMax filters = .ok ()) :
    ∀ entry ∈ filters, TransactionsRespect limits entry.2 := by
  obtain ⟨_, -, h⟩ := bind_eq_ok.mp h
  intro entry hentry
  obtain ⟨_, hany, hchecks⟩ := bind_eq_ok.mp (forM_eq_ok.mp h entry hentry)
  obtain ⟨_, -, hchecks⟩ := bind_eq_ok.mp hchecks
  obtain ⟨_, -, hchecks⟩ := bind_eq_ok.mp hchecks
  obtain ⟨_, -, hreject⟩ := bind_eq_ok.mp hchecks
  refine ⟨forM_checkPubkeyReject.mp hreject, fun hlimit => ?_⟩
  have hsome := checkAny_eq_ok.mp hany hlimit
  simp only [Bool.and_eq_false_iff, isEmpty_eq_false, Option.isNone_eq_false_iff, or_assoc] at hsome
  simpa only [← Option.isSome_iff_ne_none] using hsome

theorem ConfigLimitsAccounts.checkFilter_respects {limits : ConfigLimitsAccounts} {nameMax : ℕ}
    {filters : List (String × ConfigFilterAccounts)} {dataSlices : List ConfigFilterAccountsDataSlice}
    (h : limits.checkFilter nameMax filters dataSlices = .ok (.ok ())) : ∀ entry ∈ filters,
      (∀ pubkey ∈ entry.2.account, pubkey ∉ limits.accountReject) ∧
      (∀ pubkey ∈ entry.2.owner, pubkey ∉ limits.ownerReject) ∧
      (limits.any = false → entry.2.account ≠ [] ∨ entry.2.owner ≠ []) := by
  obtain ⟨_, -, h⟩ := bind_eq_ok_ok.mp h
  obtain ⟨_, h, -⟩ := bind_eq_ok_ok.mp h
  intro entry hentry
  obtain ⟨_, hany, hchecks⟩ := bind_eq_ok.mp (forM_eq_ok.mp (liftExcept_eq_ok_ok.mp h) entry hentry)
  obtain ⟨_, -, hchecks⟩ := bind_eq_ok.mp hchecks
  obtain ⟨_, -, hchecks⟩ := bind_eq_ok.mp hchecks
  obtain ⟨_, haccount, hchecks⟩ := bind_eq_ok.mp hchecks
  obtain ⟨_, howner, -⟩ := bind_eq_ok.mp hchecks
  refine ⟨forM_checkPubkeyReject.mp haccount, forM_checkPubkeyReject.mp howner, fun hlimit => ?_⟩
  have hsome := checkAny_eq_ok.mp hany hlimit
  rwa [Bool.and_eq_false_iff, isEmpty_eq_false, isEmpty_eq_false] at hsome

/-- What the check of a filter of blocks leaves. -/
theorem ConfigLimitsBlocks.checkFilter_respects {limits : ConfigLimitsBlocks} {nameMax : ℕ}
    {filters : List (String × ConfigFilterBlocks)} (h : limits.checkFilter nameMax filters = .ok ()) :
    ∀ entry ∈ filters, (∀ pubkey ∈ entry.2.accountInclude, pubkey ∉ limits.accountIncludeReject) ∧
      (limits.accountIncludeAny = false → entry.2.accountInclude ≠ []) ∧
      (limits.includeTransactions = false → entry.2.includeTransactions = some false) ∧
      (limits.includeAccounts = false → entry.2.includeAccounts ≠ some true) := by
  obtain ⟨_, -, h⟩ := bind_eq_ok.mp h
  intro entry hentry
  obtain ⟨_, hany, hchecks⟩ := bind_eq_ok.mp (forM_eq_ok.mp h entry hentry)
  obtain ⟨_, -, hchecks⟩ := bind_eq_ok.mp hchecks
  dsimp only at hchecks
  split at hchecks
  · cases hchecks
  · rename_i htransactions
    split at hchecks
    · cases hchecks
    · rename_i haccounts
      split at hchecks
      · cases hchecks
      · refine ⟨forM_checkPubkeyReject.mp hchecks, fun hlimit => ?_, fun hlimit => ?_, fun hlimit => ?_⟩
        · exact isEmpty_eq_false.mp (checkAny_eq_ok.mp hany hlimit)
        · simpa [hlimit] using htransactions
        · simpa [hlimit] using haccounts

/-! ### The limits on what is put out -/

section

variable {arith : Arithmetic} {limits : ConfigLimits} {config : ConfigFilter} {filter : ClientFilter}
  {validAccountData : Bytes → Bool} {message : Message} {commitment : CommitmentLevel}
  {updates : List FilteredUpdate}

theorem respects_of_checkFilter (h : arith.checkFilter limits config = .ok (.ok ())) : Respects limits config := by
  obtain ⟨_, h, -⟩ := bind_eq_ok_ok.mp h
  obtain ⟨_, -, h⟩ := bind_eq_ok_ok.mp h
  obtain ⟨_, haccounts, h⟩ := bind_eq_ok_ok.mp h
  obtain ⟨_, htransactions, h⟩ := bind_eq_ok_ok.mp h
  obtain ⟨_, hstatus, h⟩ := bind_eq_ok_ok.mp h
  obtain ⟨_, -, h⟩ := bind_eq_ok_ok.mp h
  obtain ⟨_, -, h⟩ := bind_eq_ok_ok.mp h
  obtain ⟨_, hblocks, -⟩ := bind_eq_ok_ok.mp h
  have haccounts := ConfigLimitsAccounts.checkFilter_respects haccounts
  have hblocks := ConfigLimitsBlocks.checkFilter_respects (liftExcept_eq_ok_ok.mp hblocks)
  exact {
    account := fun entry hentry => (haccounts entry hentry).1
    owner := fun entry hentry => (haccounts entry hentry).2.1
    accountsAny := fun hlimit entry hentry => (haccounts entry hentry).2.2 hlimit
    transactions := ConfigLimitsTransactions.checkFilter_respects (liftExcept_eq_ok_ok.mp htransactions)
    transactionsStatus := ConfigLimitsTransactions.checkFilter_respects (liftExcept_eq_ok_ok.mp hstatus)
    blocks := fun entry hentry => (hblocks entry hentry).1
    blocksAny := fun hlimit entry hentry => (hblocks entry hentry).2.1 hlimit }

theorem blocks_of_checkFilter (h : arith.checkFilter limits config = .ok (.ok ())) : ∀ entry ∈ config.blocks,
    (limits.blocks.includeTransactions = false → entry.2.includeTransactions = some false) ∧
      (limits.blocks.includeAccounts = false → entry.2.includeAccounts ≠ some true) := by
  obtain ⟨_, h, -⟩ := bind_eq_ok_ok.mp h
  obtain ⟨_, -, h⟩ := bind_eq_ok_ok.mp h
  obtain ⟨_, -, h⟩ := bind_eq_ok_ok.mp h
  obtain ⟨_, -, h⟩ := bind_eq_ok_ok.mp h
  obtain ⟨_, -, h⟩ := bind_eq_ok_ok.mp h
  obtain ⟨_, -, h⟩ := bind_eq_ok_ok.mp h
  obtain ⟨_, -, h⟩ := bind_eq_ok_ok.mp h
  obtain ⟨_, hblocks, -⟩ := bind_eq_ok_ok.mp h
  have hblocks := ConfigLimitsBlocks.checkFilter_respects (liftExcept_eq_ok_ok.mp hblocks)
  exact fun entry hentry => (hblocks entry hentry).2.2

theorem newFilter_blocks (h : arith.newFilter config = .ok filter) : filter.blocks = FilterBlocks.new config.blocks := by
  obtain ⟨inner, hinner, h⟩ := bind_eq_ok.mp h
  obtain ⟨slices, -, h⟩ := bind_eq_ok.mp h
  obtain rfl := Except.ok.inj h
  obtain ⟨accounts, -, hinner⟩ := bind_eq_ok.mp hinner
  obtain ⟨_, -, hinner⟩ := bind_eq_ok.mp hinner
  obtain rfl := Except.ok.inj hinner
  rfl

/-- The updates of a block are made by the filters of blocks. -/
theorem mem_getUpdatesRef (h : filter.getUpdatesRef validAccountData message commitment = .ok updates)
    {update : FilteredUpdate} (hupdate : update ∈ updates) :
    (∃ block, message = .block block ∧ update ∈ filter.blocks.getUpdates block filter.accountsDataSlices) ∨
      ∀ limits, BlockRespects limits update.filteredUpdate := by
  have hupdateOf : ∀ {filters : List String} {type : FilteredUpdateType} {update : FilteredUpdate},
      update ∈ (updateOf filters type).toList → update.filteredUpdate = type := by
    intro filters type update hmem
    unfold updateOf at hmem
    split at hmem
    · cases hmem
    · obtain rfl := List.mem_singleton.mp hmem
      rfl
  cases message with
  | block msg =>
    obtain rfl := Except.ok.inj h
    exact .inl ⟨msg, rfl, hupdate⟩
  | slot msg =>
    obtain rfl := Except.ok.inj h
    refine .inr fun limits => ?_
    rw [hupdateOf hupdate]
    trivial
  | account msg =>
    obtain ⟨update', hupdate', h⟩ := bind_eq_ok.mp h
    obtain rfl := Except.ok.inj h
    obtain ⟨_, -, hupdate'⟩ := bind_eq_ok.mp hupdate'
    obtain ⟨names, -, hupdate'⟩ := bind_eq_ok.mp hupdate'
    obtain rfl := Except.ok.inj hupdate'
    refine .inr fun limits => ?_
    rw [hupdateOf hupdate]
    trivial
  | transaction msg =>
    obtain ⟨first, hfirst, h⟩ := bind_eq_ok.mp h
    obtain ⟨second, hsecond, h⟩ := bind_eq_ok.mp h
    obtain rfl := Except.ok.inj h
    obtain ⟨_, -, hfirst⟩ := bind_eq_ok.mp hfirst
    obtain ⟨_, -, hsecond⟩ := bind_eq_ok.mp hsecond
    obtain rfl := Except.ok.inj hfirst
    obtain rfl := Except.ok.inj hsecond
    refine .inr fun limits => ?_
    rcases List.mem_append.mp hupdate with hmem | hmem
    · rw [hupdateOf hmem]
      trivial
    · rw [hupdateOf hmem]
      trivial
  | entry msg =>
    obtain rfl := Except.ok.inj h
    refine .inr fun limits => ?_
    rw [hupdateOf hupdate]
    trivial
  | blockMeta msg =>
    obtain rfl := Except.ok.inj h
    refine .inr fun limits => ?_
    rw [hupdateOf hupdate]
    trivial
  | blockFooter msg =>
    obtain rfl := Except.ok.inj h
    obtain ⟨certificates, -, hmem⟩ := List.mem_filterMap.mp hupdate
    refine .inr fun limits => ?_
    rw [hupdateOf (Option.mem_toList.mpr hmem)]
    trivial
  | entryUpdateParent msg =>
    obtain rfl := Except.ok.inj h
    refine .inr fun limits => ?_
    rw [hupdateOf hupdate]
    trivial

/-- No update contains accounts or transactions of a block that the limits do not allow. -/
theorem blockRespects_of_getUpdates (hcheck : arith.checkFilter limits config = .ok (.ok ()))
    (hnew : arith.newFilter config = .ok filter)
    (h : filter.getUpdatesRef validAccountData message commitment = .ok updates) :
    ∀ update ∈ updates, BlockRespects limits.blocks update.filteredUpdate := by
  intro update hupdate
  rcases mem_getUpdatesRef h hupdate with ⟨block, rfl, hmem⟩ | hother
  · rw [newFilter_blocks hnew] at hmem
    obtain ⟨entry, hentry, rfl⟩ := List.mem_map.mp hmem
    obtain ⟨config', hconfig', rfl⟩ := List.mem_map.mp hentry
    obtain ⟨htransactions, haccounts⟩ := blocks_of_checkFilter hcheck config' hconfig'
    exact ⟨fun hlimit => if_neg (haccounts hlimit), fun hlimit => if_neg fun hne => hne (htransactions hlimit)⟩
  · exact hother limits.blocks

/-- The limits are kept by every filter that is accepted: in the public keys that it names, and in what it puts out
for any message. -/
theorem respects_of_accepted (h : arith.checkFilter limits config = .ok (.ok ())) :
    Respects limits config ∧ ∀ filter, arith.newFilter config = .ok filter →
      ∀ validAccountData message commitment updates,
        filter.getUpdatesRef validAccountData message commitment = .ok updates →
        ∀ update ∈ updates, BlockRespects limits.blocks update.filteredUpdate :=
  ⟨respects_of_checkFilter h, fun _ hnew _ _ _ _ hupdates => blockRespects_of_getUpdates h hnew hupdates⟩

end

/-- One filter of transactions that only asks for votes, and limits that want some public key of it. -/
def votesConfig : ConfigFilter where
  slots := []
  accounts := []
  accountsDataSlice := []
  transactions := [("", ⟨some true, none, none, [], [], []⟩)]
  transactionsStatus := []
  entries := []
  entriesUpdateParent := []
  blocksMeta := []
  blocks := []
  blockFooter := []
  commitment := none

def noAnyLimits : ConfigLimits := { transactions := { any := false } }

theorem respects_votes : Respects noAnyLimits votesConfig := by
  have hcheck : Arithmetic.checked.checkFilter noAnyLimits votesConfig = .ok (.ok ()) := rfl
  exact (respects_of_accepted hcheck).1

/-- All lists of public keys are empty, and the filter is accepted. -/
theorem votes_accepted : Arithmetic.checked.checkFilter noAnyLimits votesConfig = .ok (.ok ()) ∧
    noAnyLimits.transactions.any = false ∧ ∀ entry ∈ votesConfig.transactions,
      entry.2.accountInclude = [] ∧ entry.2.accountExclude = [] ∧ entry.2.accountRequired = [] := by
  refine ⟨rfl, rfl, fun entry hentry => ?_⟩
  obtain rfl := List.mem_singleton.mp hentry
  exact ⟨rfl, rfl, rfl⟩

end Richat.Filter
