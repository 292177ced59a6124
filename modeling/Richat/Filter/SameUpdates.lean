import Richat.Filter.SentAlike
import Richat.Filter.Updates

/-!
# The updates of both parsers

A filter takes the same of the two messages of an update, so what a client reads of them can be compared for whole
filters: `sent_alike_iff`.
-/

namespace Richat.Filter

open Lib Lib.Protobuf Proto

/-! ### Two updates that are taken -/

/-- The same is taken of two messages. -/
inductive TakenAlike : FilteredUpdateType → FilteredUpdateType → Prop
  | slot {msg msg'} (h : SlotTwins msg msg') : TakenAlike (.slot (.limited msg)) (.slot (.prost msg'))
  | account {msg msg'} (h : AccountTwins msg msg')
      (bytes : indexRange msg.buffer msg.range = .ok (WireMessage.encodeRaw
        (⟨some msg'.account, msg'.slot, msg'.isStartup, msg'.bankId⟩ : SubscribeUpdateAccount)))
      (dataSlices : FilterAccountDataSlices) :
      TakenAlike (.account (.limited msg) dataSlices) (.account (.prost msg') dataSlices)
  | transaction {msg msg'} (h : TransactionTwins msg msg') :
      TakenAlike (.transaction (.limited msg)) (.transaction (.prost msg'))
  | transactionStatus {msg msg'} (h : TransactionTwins msg msg') (hsigned : msg.signatureOffset.isSome) :
      TakenAlike (.transactionStatus (.limited msg)) (.transactionStatus (.prost msg'))
  | entry {msg msg'} (h : EntryTwins msg msg') : TakenAlike (.entry (.limited msg)) (.entry (.prost msg'))
  | blockMeta {msg msg'} (h : BlockMetaTwins msg msg') :
      TakenAlike (.blockMeta (.limited msg)) (.blockMeta (.prost msg'))
  | block {block block'} (h : BlockTwins block block') (accounts transactions : List ℕ) (entries : Bool)
      (dataSlices : FilterAccountDataSlices) :
      TakenAlike (.block block accounts transactions entries dataSlices)
        (.block block' accounts transactions entries dataSlices)
  | blockFooter (footer : SubscribeUpdateBlockFooter) (t : Proto.Timestamp) (includeCertificates : Bool) :
      TakenAlike (.blockFooter ⟨footer, .limited t⟩ includeCertificates)
        (.blockFooter ⟨footer, .prost t⟩ includeCertificates)
  | entryUpdateParent (update : SubscribeUpdateEntryUpdateParent) (t : Proto.Timestamp) :
      TakenAlike (.entryUpdateParent ⟨update, .limited t⟩) (.entryUpdateParent ⟨update, .prost t⟩)

/-- A startup account or one without write version is not put together again. -/
def FilteredUpdateType.Keeps : FilteredUpdateType → Prop
  | .account (.limited msg) dataSlices => dataSlices = [] ∨ msg.isStartup = false ∧ msg.HasVersion
  | .block message accounts _ _ _ => HaveVersions message accounts
  | _ => True

/-- The updates are for the same filters. -/
structure UpdateAlike (update update' : FilteredUpdate) : Prop where
  filters : update.filters = update'.filters
  taken : TakenAlike update.filteredUpdate update'.filteredUpdate

theorem decodesAlike_iff {gen : Generated} {update update' : FilteredUpdate} (h : UpdateAlike update update')
    (hfits : update.Fits) (hsent : Succeeds update'.encodeToVec) (hgen : gen.ReadsFor update') :
    DecodesAlike gen update update' ↔ update.filteredUpdate.Keeps := by
  obtain ⟨filters, type⟩ := update
  obtain ⟨filters', type'⟩ := update'
  obtain ⟨rfl, htaken⟩ := h
  cases htaken with
  | slot h => exact iff_of_true (decodesAlike_slot h hfits hsent hgen) trivial
  | account h bytes => exact decodesAlike_account h bytes hfits hsent hgen
  | transaction h => exact iff_of_true (decodesAlike_transaction h hfits hsent hgen) trivial
  | transactionStatus h hsigned =>
    exact iff_of_true (decodesAlike_transactionStatus h hsigned hfits hsent hgen) trivial
  | entry h => exact iff_of_true (decodesAlike_entry h hfits hsent hgen) trivial
  | blockMeta h => exact iff_of_true (decodesAlike_blockMeta h hfits hsent hgen) trivial
  | block h => exact decodesAlike_block h hfits hsent hgen
  | blockFooter | entryUpdateParent => exact iff_of_true (decodesAlike_prost rfl rfl hsent hgen) trivial

/-! ### What a filter takes -/

section

variable {α β : Type} {takes : α → Bool} {takes' : β → Bool}

theorem mem_indexesOf {items : List α} {idx : ℕ} :
    idx ∈ indexesOf takes items ↔ ∃ item, items[idx]? = some item ∧ takes item := by
  simp only [indexesOf, List.mem_map, List.mem_filter, Prod.exists, List.mem_zipIdx_iff_getElem?]
  constructor
  · rintro ⟨item, _, ⟨hitem, htakes⟩, rfl⟩
    exact ⟨item, hitem, htakes⟩
  · rintro ⟨item, hitem, htakes⟩
    exact ⟨item, idx, ⟨hitem, htakes⟩, rfl⟩

theorem indexesOf_congr {items : List α} {items' : List β}
    (h : List.Forall₂ (fun item item' => takes item = takes' item') items items') :
    indexesOf takes items = indexesOf takes' items' := by
  have hfrom : ∀ n, ((items.zipIdx n).filter (takes ·.1)).map Prod.snd =
      ((items'.zipIdx n).filter (takes' ·.1)).map Prod.snd := by
    induction h with
    | nil => exact fun _ => rfl
    | cons hitem _ ih =>
      intro n
      rw [List.zipIdx_cons, List.zipIdx_cons, List.filter_cons, List.filter_cons, hitem]
      split
      · rw [List.map_cons, List.map_cons, ih]
      · exact ih (n + 1)
  exact hfrom 0

end

/-- What both parsers find in a transaction is asked for by a filter. -/
theorem takes_transaction {msg : LimitedTransaction} {msg' : ProstTransaction} (h : TransactionTwins msg msg')
    (signature : Bytes) (inner : FilterTransactionsInner) :
    inner.takes (.limited msg) signature = inner.takes (.prost msg') signature := by
  have hvote : (MessageTransaction.limited msg).vote = (MessageTransaction.prost msg').vote := h.isVote
  have hfailed : (MessageTransaction.limited msg).failed = (MessageTransaction.prost msg').failed :=
    congrArg Option.isSome h.error
  have hkeys : (MessageTransaction.limited msg).accountKeys = (MessageTransaction.prost msg').accountKeys :=
    h.accountKeys
  rw [FilterTransactionsInner.takes, FilterTransactionsInner.takes, hvote, hfailed, hkeys]

theorem takes_account {msg : LimitedAccount} {msg' : ProstAccount} (h : AccountTwins msg msg')
    (validAccountData : Bytes → Bool) (data : Bytes) (inner : FilterAccountsInner) :
    inner.takes validAccountData (.limited msg) data = inner.takes validAccountData (.prost msg') data := by
  have hsignature : (MessageAccount.limited msg).nonemptyTxnSignature =
      (MessageAccount.prost msg').nonemptyTxnSignature := by
    have hmap := (mapM_indexRange_eq_ok.mp h.txnSignature).2
    rw [MessageAccount.nonemptyTxnSignature, MessageAccount.nonemptyTxnSignature, ← hmap, Option.isSome_map]
  simp only [FilterAccountsInner.takes, MessageAccount.pubkey, MessageAccount.owner, MessageAccount.lamports,
    h.pubkey, h.owner, h.lamports, hsignature]

theorem names_account {msg : LimitedAccount} {msg' : ProstAccount} (h : AccountTwins msg msg')
    (validAccountData : Bytes → Bool) (data : Bytes) (filters : FilterAccounts) :
    filters.names validAccountData (.limited msg) data = filters.names validAccountData (.prost msg') data := by
  induction filters with
  | nil => rfl
  | cons entry filters ih => rw [FilterAccounts.names, FilterAccounts.names, takes_account h, ih]

theorem updateOf_alike {type type' : FilteredUpdateType} (h : TakenAlike type type') (filters : List String) :
    List.Forall₂ UpdateAlike (updateOf filters type).toList (updateOf filters type').toList := by
  unfold updateOf
  split
  · exact .nil
  · exact .cons ⟨rfl, h⟩ .nil

/-- A transaction has its signature, which the filters of transactions ask for. -/
def Message.Signed : Message → Prop
  | .transaction (.limited msg) => msg.signatureOffset.isSome
  | _ => True

section

variable {validAccountData : Bytes → Bool} {me : ClientFilter} {commitment : CommitmentLevel}

theorem getUpdates_transaction (kind : MessageTransaction → FilteredUpdateType) {msg : LimitedTransaction}
    {msg' : ProstTransaction} (h : TransactionTwins msg msg') (hsigned : msg.signatureOffset.isSome)
    (hkind : TakenAlike (kind (.limited msg)) (kind (.prost msg'))) (filters : FilterTransactions) :
    ∃ update update', filters.getUpdate kind (.limited msg) = .ok update ∧
      filters.getUpdate kind (.prost msg') = .ok update' ∧ List.Forall₂ UpdateAlike update.toList update'.toList := by
  obtain ⟨offset, hoffset⟩ := Option.isSome_iff_exists.mp hsigned
  have hsignature : indexSignature (.limited msg) = .ok msg'.transaction.signature := by
    rw [indexSignature, hoffset]
    exact h.signature offset hoffset
  have hnames : namesOf (fun inner : FilterTransactionsInner =>
      inner.takes (.limited msg) msg'.transaction.signature) filters =
        namesOf (fun inner : FilterTransactionsInner =>
          inner.takes (.prost msg') msg'.transaction.signature) filters := by
    simp only [takes_transaction h]
  refine ⟨_, _, bind_eq_ok.mpr ⟨_, hsignature, rfl⟩, rfl, ?_⟩
  rw [hnames]
  exact updateOf_alike hkind _

theorem getUpdates_block {block block' : MessageBlock} (h : BlockTwins block block') (filters : FilterBlocks)
    (dataSlices : FilterAccountDataSlices) :
    List.Forall₂ UpdateAlike (filters.getUpdates block dataSlices) (filters.getUpdates block' dataSlices) := by
  unfold FilterBlocks.getUpdates
  rw [List.forall₂_map_left_iff, List.forall₂_map_right_iff]
  refine List.forall₂_same.mpr fun entry _ => ?_
  obtain ⟨name, inner⟩ := entry
  have haccounts : indexesOf (fun account : MessageAccount =>
      inner.accountInclude = ∅ ∨ account.pubkey ∈ inner.accountInclude) block.accounts =
        indexesOf (fun account : MessageAccount =>
          inner.accountInclude = ∅ ∨ account.pubkey ∈ inner.accountInclude) block'.accounts := by
    refine indexesOf_congr (h.accounts.imp ?_)
    rintro msg msg' ⟨htwins⟩
    have hpubkey : (MessageAccount.limited _).pubkey = (MessageAccount.prost _).pubkey := htwins.pubkey
    rw [hpubkey]
  have htransactions : indexesOf (fun tx : MessageTransaction =>
      inner.accountInclude = ∅ ∨ inner.accountInclude ∩ tx.accountKeys ≠ ∅) block.transactions =
        indexesOf (fun tx : MessageTransaction =>
          inner.accountInclude = ∅ ∨ inner.accountInclude ∩ tx.accountKeys ≠ ∅) block'.transactions := by
    refine indexesOf_congr (h.transactions.imp ?_)
    rintro msg msg' ⟨htwins⟩
    have hkeys : (MessageTransaction.limited _).accountKeys = (MessageTransaction.prost _).accountKeys :=
      htwins.accountKeys
    rw [hkeys]
  refine ⟨rfl, ?_⟩
  simp only [haccounts, htransactions]
  exact .block h _ _ _ _

/-- A filter takes the same of both messages. -/
theorem getUpdates_alike {msg msg' : Message} (h : Twins msg msg') (hsigned : msg.Signed)
    {updates' : List FilteredUpdate} (h' : me.getUpdatesRef validAccountData msg' commitment = .ok updates') :
    ∃ updates, me.getUpdatesRef validAccountData msg commitment = .ok updates ∧
      List.Forall₂ UpdateAlike updates updates' := by
  cases h with
  | slot h =>
    cases h with
    | @intro slot slot' h =>
      obtain rfl := Except.ok.inj h'
      refine ⟨_, rfl, ?_⟩
      have hstatus : (MessageSlot.limited slot).status = (MessageSlot.prost slot').status := h.status
      rw [FilterSlots.getUpdate, FilterSlots.getUpdate, hstatus]
      exact updateOf_alike (.slot h) _
  | @account account account' h bytes =>
    obtain ⟨update', hupdate', h'⟩ := bind_eq_ok.mp h'
    obtain rfl := Except.ok.inj h'
    obtain ⟨data, hdata, hupdate'⟩ := bind_eq_ok.mp hupdate'
    obtain rfl := Except.ok.inj hdata
    obtain ⟨names, hnames, hupdate'⟩ := bind_eq_ok.mp hupdate'
    obtain rfl := Except.ok.inj hupdate'
    rw [← names_account h] at hnames
    refine ⟨_, bind_eq_ok.mpr ⟨_, bind_eq_ok.mpr ⟨_, h.data, bind_eq_ok.mpr ⟨names, hnames, rfl⟩⟩, rfl⟩, ?_⟩
    exact updateOf_alike (.account h bytes _) _
  | transaction h =>
    cases h with
    | @intro tx tx' h =>
      obtain ⟨update, update', hupdate, hupdate', hall⟩ :=
        getUpdates_transaction .transaction h hsigned (.transaction h) me.transactions
      obtain ⟨status, status', hstatus, hstatus', hall'⟩ :=
        getUpdates_transaction .transactionStatus h hsigned (.transactionStatus h hsigned) me.transactionsStatus
      obtain ⟨first, hfirst, h'⟩ := bind_eq_ok.mp h'
      obtain ⟨second, hsecond, h'⟩ := bind_eq_ok.mp h'
      obtain rfl := Except.ok.inj h'
      obtain rfl := Except.ok.inj (hupdate'.symm.trans hfirst)
      obtain rfl := Except.ok.inj (hstatus'.symm.trans hsecond)
      exact ⟨_, bind_eq_ok.mpr ⟨_, hupdate, bind_eq_ok.mpr ⟨_, hstatus, rfl⟩⟩, List.rel_append hall hall'⟩
  | entry h =>
    cases h with
    | intro h =>
      obtain rfl := Except.ok.inj h'
      exact ⟨_, rfl, updateOf_alike (.entry h) _⟩
  | blockMeta h =>
    cases h with
    | intro h =>
      obtain rfl := Except.ok.inj h'
      exact ⟨_, rfl, updateOf_alike (.blockMeta h) _⟩
  | block h =>
    obtain rfl := Except.ok.inj h'
    exact ⟨_, rfl, getUpdates_block h _ _⟩
  | blockFooter footer t =>
    obtain rfl := Except.ok.inj h'
    refine ⟨_, rfl, ?_⟩
    unfold FilterBlockFooter.getUpdates
    rw [List.filterMap_eq_flatMap_toList, List.filterMap_eq_flatMap_toList]
    refine List.rel_flatMap (R := Eq) (List.forall₂_same.mpr fun _ _ => rfl) ?_
    rintro includeCertificates _ rfl
    exact updateOf_alike (.blockFooter footer t includeCertificates) _
  | entryUpdateParent update t =>
    obtain rfl := Except.ok.inj h'
    exact ⟨_, rfl, updateOf_alike (.entryUpdateParent update t) _⟩

/-- A filter of transactions asks for the signature. -/
theorem signed_of_getUpdates {msg : Message} {updates : List FilteredUpdate}
    (h : me.getUpdatesRef validAccountData msg commitment = .ok updates) : msg.Signed := by
  unfold Message.Signed
  split
  · rename_i tx
    obtain ⟨update, hupdate, -⟩ := bind_eq_ok.mp h
    obtain ⟨signature, hsignature, -⟩ := bind_eq_ok.mp hupdate
    rw [indexSignature] at hsignature
    cases hoffset : tx.signatureOffset with
    | none =>
      rw [hoffset] at hsignature
      cases hsignature
    | some offset => rfl
  · trivial

/-! ### What the clients read -/

/-- The filter takes nothing of a limited message that is lost when it is written: no startup account, no account
without write version, and no transaction without signature. -/
def ClientFilter.SendsAlike (me : ClientFilter) : Message → Prop
  | .account (.limited msg) => me.accountsDataSlices = [] ∨ msg.isStartup = false ∧ msg.HasVersion
  | .transaction (.limited msg) => msg.signatureOffset.isSome
  | .block message => ∀ entry ∈ me.blocks, entry.2.includeAccounts = some true →
      ∀ msg, .limited msg ∈ message.accounts →
        (entry.2.accountInclude = ∅ ∨ msg.pubkey ∈ entry.2.accountInclude) → msg.HasVersion
  | _ => True

theorem keeps_block {message : MessageBlock} {filters : FilterBlocks} {dataSlices : FilterAccountDataSlices} :
    (∀ update ∈ filters.getUpdates message dataSlices, update.filteredUpdate.Keeps) ↔
      ∀ entry ∈ filters, entry.2.includeAccounts = some true → ∀ msg, .limited msg ∈ message.accounts →
        (entry.2.accountInclude = ∅ ∨ msg.pubkey ∈ entry.2.accountInclude) → msg.HasVersion := by
  unfold FilterBlocks.getUpdates
  rw [List.forall_mem_map]
  refine forall₂_congr fun entry _ => ?_
  obtain ⟨name, inner⟩ := entry
  simp only [FilteredUpdateType.Keeps, HaveVersions]
  by_cases hinclude : inner.includeAccounts = some true
  · rw [if_pos hinclude, imp_iff_right hinclude]
    constructor
    · intro h msg hmem htakes
      obtain ⟨idx, hidx⟩ := List.mem_iff_getElem?.mp hmem
      exact h idx (mem_indexesOf.mpr ⟨_, hidx, decide_eq_true htakes⟩) msg hidx
    · intro h idx hidx msg hmsg
      obtain ⟨item, hitem, htakes⟩ := mem_indexesOf.mp hidx
      obtain rfl := Option.some.inj (hitem.symm.trans hmsg)
      exact h msg (List.mem_of_getElem? hmsg) (of_decide_eq_true htakes)
  · rw [if_neg hinclude]
    exact iff_of_true (fun _ hmem => by cases hmem) fun h => absurd h hinclude

theorem keeps_updateOf {filters : List String} {type : FilteredUpdateType} {update : FilteredUpdate}
    (hmem : update ∈ (updateOf filters type).toList) (h : type.Keeps) : update.filteredUpdate.Keeps := by
  unfold updateOf at hmem
  split at hmem
  · cases hmem
  · obtain rfl := List.mem_singleton.mp hmem
    exact h

/-- What is written of the updates is kept just if the filter takes nothing else. -/
theorem keeps_iff {msg msg' : Message} {updates : List FilteredUpdate} (h : Twins msg msg')
    (hupdates : me.getUpdatesRef validAccountData msg commitment = .ok updates) (hne : updates ≠ []) :
    (∀ update ∈ updates, update.filteredUpdate.Keeps) ↔ me.SendsAlike msg := by
  have hone : ∀ {filters : List String} {type : FilteredUpdateType}, (updateOf filters type).toList ≠ [] →
      (updateOf filters type).toList = [⟨filters, type⟩] := by
    intro filters type hne
    unfold updateOf at hne ⊢
    split at hne
    · exact absurd rfl hne
    · rename_i hsome
      rw [if_neg hsome]
      rfl
  cases h with
  | slot h | entry h | blockMeta h =>
    obtain rfl := Except.ok.inj hupdates
    cases h with
    | intro h => exact iff_of_true (fun _ hmem => keeps_updateOf hmem trivial) trivial
  | account h =>
    obtain ⟨update, hupdate, hupdates⟩ := bind_eq_ok.mp hupdates
    obtain rfl := Except.ok.inj hupdates
    obtain ⟨data, -, hupdate⟩ := bind_eq_ok.mp hupdate
    obtain ⟨names, -, hupdate⟩ := bind_eq_ok.mp hupdate
    obtain rfl := Except.ok.inj hupdate
    rw [hone hne, List.forall_mem_singleton]
    exact Iff.rfl
  | transaction h =>
    have hsigned := signed_of_getUpdates hupdates
    obtain ⟨first, hfirst, hupdates⟩ := bind_eq_ok.mp hupdates
    obtain ⟨second, hsecond, hupdates⟩ := bind_eq_ok.mp hupdates
    obtain rfl := Except.ok.inj hupdates
    obtain ⟨_, -, hfirst⟩ := bind_eq_ok.mp hfirst
    obtain ⟨_, -, hsecond⟩ := bind_eq_ok.mp hsecond
    obtain rfl := Except.ok.inj hfirst
    obtain rfl := Except.ok.inj hsecond
    cases h with
    | intro h =>
      refine iff_of_true (fun update hmem => ?_) hsigned
      rcases List.mem_append.mp hmem with hmem | hmem
      · exact keeps_updateOf hmem trivial
      · exact keeps_updateOf hmem trivial
  | block h =>
    obtain rfl := Except.ok.inj hupdates
    exact keeps_block
  | blockFooter =>
    obtain rfl := Except.ok.inj hupdates
    refine iff_of_true (fun update hmem => ?_) trivial
    obtain ⟨certificates, -, hmem⟩ := List.mem_filterMap.mp hmem
    exact keeps_updateOf (Option.mem_toList.mpr hmem) trivial
  | entryUpdateParent =>
    obtain rfl := Except.ok.inj hupdates
    exact iff_of_true (fun _ hmem => keeps_updateOf hmem trivial) trivial

theorem forall₂_decodesAlike_iff {gen : Generated} {updates updates' : List FilteredUpdate}
    (h : List.Forall₂ UpdateAlike updates updates') (hfits : ∀ update ∈ updates, update.Fits)
    (hsent : ∀ update ∈ updates', Succeeds update.encodeToVec) (hgen : ∀ update ∈ updates', gen.ReadsFor update) :
    List.Forall₂ (DecodesAlike gen) updates updates' ↔ ∀ update ∈ updates, update.filteredUpdate.Keeps := by
  induction h with
  | nil => exact iff_of_true .nil fun _ hmem => by cases hmem
  | cons halike _ ih =>
    rw [List.forall_mem_cons] at hfits hsent hgen
    rw [List.forall₂_cons, List.forall_mem_cons, decodesAlike_iff halike hfits.1 hsent.1 hgen.1,
      ih hfits.2 hsent.2 hgen.2]

/-- **The encodings agree** for the messages of both parsers, or for blocks of them, and the filters that take them,
just if nothing is taken that is lost: a client reads the same updates of both. -/
theorem sent_alike_iff {gen : Generated} {msg msg' : Message} {updates' : List FilteredUpdate}
    (hmade : MadeAlike gen msg msg')
    (h' : me.getUpdatesRef validAccountData msg' commitment = .ok updates') (hne : updates' ≠ [])
    (hsent : ∀ update ∈ updates', Succeeds update.encodeToVec)
    (hfits : ∀ updates, me.getUpdatesRef validAccountData msg commitment = .ok updates →
      ∀ update ∈ updates, update.Fits)
    (hgen : ∀ update ∈ updates', gen.ReadsFor update) :
    (∃ updates, me.getUpdatesRef validAccountData msg commitment = .ok updates ∧
      List.Forall₂ (DecodesAlike gen) updates updates') ↔ me.SendsAlike msg := by
  have htwins := hmade.twins
  by_cases hsigned : msg.Signed
  · obtain ⟨updates, hupdates, halike⟩ := getUpdates_alike htwins hsigned h'
    have hne' : updates ≠ [] := by
      rintro rfl
      cases halike
      exact hne rfl
    rw [← keeps_iff htwins hupdates hne', ← forall₂_decodesAlike_iff halike (hfits updates hupdates) hsent hgen]
    constructor
    · rintro ⟨found, hfound, hall⟩
      obtain rfl := Except.ok.inj (hupdates.symm.trans hfound)
      exact hall
    · exact fun hall => ⟨updates, hupdates, hall⟩
  · refine iff_of_false ?_ ?_
    · rintro ⟨updates, hupdates, -⟩
      exact hsigned (signed_of_getUpdates hupdates)
    · intro hsends
      cases htwins with
      | transaction h =>
        cases h with
        | intro h => exact hsigned hsends
      | _ => exact hsigned trivial

end

/-- A filter of all accounts, with the first byte of their data. -/
def firstByteFilter : ClientFilter where
  slots := []
  accounts := [("b", ⟨∅, ∅, none, none⟩)]
  accountsDataSlices := [⟨0, 1⟩]
  transactions := []
  transactionsStatus := []
  entries := ⟨[], []⟩
  blocksMeta := []
  blocks := []
  blockFooter := []
  commitment := .processed

/-- What the filter makes of an update of the account. -/
def firstByteUpdate (writeVersion : UInt64) : SubscribeUpdateAccount where
  account := some ⟨List.replicate 32 1, 9, List.replicate 32 2, false, 4, [1], writeVersion, none⟩
  slot := 5
  isStartup := false
  bankId := some 6

/-- A decoder that knows an update and one that is sent for it, with `is_startup` and without. -/
def Generated.knowing (u w : SubscribeUpdate) (m : SubscribeUpdateAccount) : Generated :=
  { Generated.reading u with
    subscribeUpdate := fun data =>
      if data = WireMessage.encodeRaw u then .ok u.readBack
      else if data = WireMessage.encodeRaw w ∨ data = encodeAround w (message.encode 2 (StartupWritten.mk m)) then
        .ok w.readBack
      else .error (.new .bufferUnderflow) }

def Generated.firstByte : Generated :=
  .knowing (writtenAccount 7) ⟨["b"], some (.account (firstByteUpdate 7)), some ⟨7, 8⟩⟩ (firstByteUpdate 7)

theorem reads_firstByte : Generated.firstByte.Reads (writtenAccount 7) :=
  { Generated.reads_reading rfl (.inl rfl) with
    subscribeUpdate := by
      unfold Generated.firstByte Generated.knowing
      dsimp only
      rw [if_pos rfl] }

theorem readsSent_firstByte :
    Generated.firstByte.ReadsSent ⟨["b"], some (.account (firstByteUpdate 7)), some ⟨7, 8⟩⟩ := by
  unfold Generated.firstByte Generated.knowing
  constructor
  · dsimp only
    rw [if_neg (by decide +kernel), if_pos (Or.inl rfl)]
  · intro m hm _
    obtain rfl := UpdateOneof.account.inj (Option.some.inj hm)
    dsimp only
    rw [if_neg (by decide +kernel), if_pos (Or.inr rfl)]

/-- The update in `writtenAccount`. -/
def writtenUpdate : SubscribeUpdateAccount where
  account := some ⟨List.replicate 32 1, 9, List.replicate 32 2, false, 4, [1, 2, 3], 7, none⟩
  slot := 5
  isStartup := false
  bankId := some 6

def writtenLimited : LimitedAccount :=
  limitedAccount (WireMessage.encodeRaw (writtenAccount 7)) (updateRange (writtenAccount 7) (.account writtenUpdate))
    ⟨7, 8⟩ writtenUpdate ⟨List.replicate 32 1, 9, List.replicate 32 2, false, 4, [1, 2, 3], 7, none⟩
    ((wellFormed_writtenAccount 7).account writtenUpdate _ rfl rfl)

def repeatedKey (byte : UInt8) : Pubkey := ⟨List.replicate 32 byte, List.length_replicate⟩

def writtenProst : ProstAccount where
  pubkey := repeatedKey 1
  owner := repeatedKey 2
  account := ⟨List.replicate 32 1, 9, List.replicate 32 2, false, 4, [1, 2, 3], 7, none⟩
  slot := 5
  isStartup := false
  bankId := some 6
  createdAt := ⟨7, 8⟩

theorem bothAccept_writtenAccount : BothAccept .firstByte (writtenAccount 7) (.account (.limited writtenLimited))
    (.account (.prost writtenProst)) := by
  have hlen : (WireMessage.encodeRaw (writtenAccount 7)).length < 2 ^ 64 := by decide +kernel
  have hv : (writtenAccount 7).updateOneof = some (.account writtenUpdate) := rfl
  have hslice : slice (WireMessage.encodeRaw (writtenAccount 7))
      (updateRange (writtenAccount 7) (.account writtenUpdate)) = WireMessage.encodeRaw writtenUpdate := slice_update hv
  have hparse := limited_parseAccount (t := ⟨7, 8⟩) (m := writtenUpdate) rfl
    ((wellFormed_writtenAccount 7).account writtenUpdate _ rfl rfl) (length_body_lt hv hlen) hslice
  refine ⟨reads_firstByte, by decide +kernel, ?_, ?_⟩
  · rw [limited_parse hv rfl hlen]
    exact hparse
  · rw [prost_parse reads_firstByte hv rfl]
    rfl

/-- What the filter takes of the message of prost. -/
def firstByteTaken : FilteredUpdate where
  filters := ["b"]
  filteredUpdate := .account (.prost writtenProst) [⟨0, 1⟩]

theorem readsFor_firstByte : Generated.firstByte.ReadsFor firstByteTaken := by
  intro msg hmsg v hread
  have hvalue : FilteredUpdate.messageOf firstByteTaken.filters firstByteTaken.filteredUpdate =
      .ok (.prost ⟨["b"], .account (firstByteUpdate 7), ⟨7, 8⟩⟩) := rfl
  obtain rfl := SubscribeUpdateMessage.prost.inj (Except.ok.inj (hmsg.symm.trans hvalue))
  generalize hv : UpdateOneof.account (firstByteUpdate 7) = v' at hread
  cases hread with
  | same =>
    subst hv
    exact readsSent_firstByte
  | @account a a' h slot isStartup bankId =>
    obtain ⟨ha, rfl, rfl, rfl⟩ := SubscribeUpdateAccount.mk.inj (UpdateOneof.account.inj hv)
    obtain rfl := Option.some.inj ha
    rcases h with rfl | ⟨hzero, -⟩
    · exact readsSent_firstByte
    · cases hzero
  | block h => cases hv

/-- One byte of the data is taken, and both are read alike. -/
theorem sent_alike_firstByte : ∃ updates,
    firstByteFilter.getUpdatesRef (fun _ => false) (.account (.limited writtenLimited)) .processed = .ok updates ∧
      List.Forall₂ (DecodesAlike .firstByte) updates [firstByteTaken] := by
  have htaken : firstByteFilter.getUpdatesRef (fun _ => false) (.account (.prost writtenProst)) .processed =
      .ok [firstByteTaken] := rfl
  have htaken' : firstByteFilter.getUpdatesRef (fun _ => false) (.account (.limited writtenLimited)) .processed =
      .ok [⟨["b"], .account (.limited writtenLimited) [⟨0, 1⟩]⟩] := by
    cases twins_of_accept bothAccept_writtenAccount with
    | account h => exact bind_eq_ok.mpr ⟨_, bind_eq_ok.mpr ⟨_, h.data, rfl⟩, rfl⟩
  refine (sent_alike_iff (.parsed bothAccept_writtenAccount) htaken (List.cons_ne_nil _ _) ?_ ?_ ?_).mpr (.inr ?_)
  · intro update hmem
    obtain rfl := List.mem_singleton.mp hmem
    exact ⟨_, encodeToVec_eq rfl (by decide +kernel)⟩
  · intro updates hupdates update hmem
    obtain rfl := Except.ok.inj (hupdates.symm.trans htaken')
    obtain rfl := List.mem_singleton.mp hmem
    intro message hmessage
    have hfits : (FilteredUpdate.messageOf ["b"] (.account (.limited writtenLimited) [⟨0, 1⟩])).toOption.all
        (fun message => message.encodedLen ≤ isizeMax) = true := by decide +kernel
    rw [hmessage] at hfits
    exact of_decide_eq_true hfits
  · intro update hmem
    obtain rfl := List.mem_singleton.mp hmem
    exact readsFor_firstByte
  · exact ⟨rfl, by decide +kernel⟩

end Richat.Filter
