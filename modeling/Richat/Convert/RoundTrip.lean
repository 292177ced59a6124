import Richat.Convert.ConvertFrom
import Richat.Convert.ConvertTo

/-!
# The round trip of the conversions

A transaction comes back as it was. Of a status meta everything comes back but what the format has no
field for (`forget`), and but the difference between absent and empty inner instructions and log
messages: `convert_to` writes it, `convert_from` does not read it.
-/

namespace Richat

open Solana

/-! ### Small conversions -/

namespace ConvertFrom

@[simp] theorem ok_bind {α β : Type} (x : α) (f : α → Except String β) : (Except.ok x >>= f) = f x := rfl

@[simp] theorem pure_eq_ok {α : Type} (x : α) : (pure x : Except String α) = .ok x := rfl

@[simp] theorem okOr_some {α : Type} (x : α) (e : String) : okOr (some x) e = .ok x := rfl

@[simp] theorem toU8_toUInt32 (n : UInt8) : toU8 n.toUInt32 = some n := by
  unfold toU8
  rw [UInt8.toNat_toUInt32, if_pos n.toNat_lt, UInt8.toUInt8_toUInt32]

@[simp] theorem toArray_val {n : ℕ} (bytes : { bytes : Bytes // bytes.length = n }) :
    toArray n bytes.val = some bytes := dif_pos bytes.property

/-- A loop that undoes a `map`. -/
theorem mapM_map {α β : Type} {f : β → Except String α} {g : α → β} (h : ∀ x, f (g x) = .ok x)
    (l : List α) : (l.map g).mapM f = .ok l := by
  induction l with
  | nil => rfl
  | cons x l ih => rw [List.map_cons, List.mapM_cons, h, ih]; rfl

theorem parseUnsigned_repr {bits n : ℕ} (hn : n < 2 ^ bits) : parseUnsigned bits n.repr = some n := by
  have hdigits : ∀ c ∈ Nat.toDigits 10 n, c.isDigit :=
    fun c hc => Nat.isDigit_of_mem_toDigits (by decide) (by decide) hc
  unfold parseUnsigned
  simp only [Nat.toList_repr]
  -- a digit is not a plus
  split
  · rename_i cs heq
    have hplus := hdigits '+' (heq ▸ List.mem_cons_self)
    exact absurd hplus (by decide)
  · rw [Nat.ofDigitChars_ten_toDigits]
    exact if_pos ⟨Nat.toDigits_ne_nil, List.all_eq_true.mpr hdigits, hn⟩

theorem createCommission_repr {bits n : ℕ} (hn : n < 2 ^ bits) (e : String) :
    createCommission bits n.repr e = .ok (some n) := by
  have hne : n.repr.isEmpty = false := by
    rw [String.isEmpty_eq_false_iff]
    intro hempty
    have hnil := Nat.toList_repr (n := n)
    rw [hempty] at hnil
    exact Nat.toDigits_ne_nil hnil.symm
  rw [createCommission, hne, parseUnsigned_repr hn]
  rfl

end ConvertFrom

open ConvertFrom

/-! ### Transactions -/

@[simp] theorem createPubkeyVec_createPubkeys (pubkeys : List Pubkey) :
    createPubkeyVec (ConvertTo.createPubkeys pubkeys) = .ok pubkeys :=
  mapM_map (fun pubkey => by rw [createPubkey, toArray_val, okOr_some]) pubkeys

@[simp] theorem createHeader_createHeader (header : MessageHeader) :
    createHeader (ConvertTo.createHeader header) = .ok header := by
  simp [createHeader, ConvertTo.createHeader]

@[simp] theorem createMessageInstructions_createInstructions (ixs : List CompiledInstruction) :
    createMessageInstructions (ConvertTo.createInstructions ixs) = .ok ixs := by
  refine mapM_map (fun ix => ?_) ixs
  simp [createMessageInstruction, ConvertTo.createInstruction]

@[simp] theorem createLookup_createLookups (lookups : List MessageAddressTableLookup) :
    (ConvertTo.createLookups lookups).mapM createLookup = .ok lookups := by
  refine mapM_map (fun lookup => ?_) lookups
  simp [createLookup, ConvertTo.createLookup]

theorem createMessage_createMessage (message : VersionedMessage) :
    createMessage (ConvertTo.createMessage message) = .ok message := by
  cases message with
  | legacy message =>
    simp [createMessage, ConvertTo.createMessage]
  | v0 message =>
    simp [createMessage, ConvertTo.createMessage]
  | v1 message =>
    simp [createMessage, ConvertTo.createMessage, ConvertTo.createTransactionConfig]

theorem createTxVersioned_createTransaction (tx : VersionedTransaction) :
    createTxVersioned (ConvertTo.createTransaction tx) = .ok tx := by
  unfold createTxVersioned ConvertTo.createTransaction
  rw [mapM_map (fun signature => by rw [toArray_val, okOr_some])]
  simp [createMessage_createMessage]

/-! ### The meta -/

@[simp] theorem createMetaInnerInstructions_createInnerInstructionsVec (ixs : List InnerInstructions) :
    createMetaInnerInstructions (ConvertTo.createInnerInstructionsVec ixs) = .ok ixs := by
  have hinner : ∀ ixs : List InnerInstruction,
      (ixs.map ConvertTo.createInnerInstruction).mapM createInnerInstruction = .ok ixs := by
    refine mapM_map fun ix => ?_
    simp [createInnerInstruction, ConvertTo.createInnerInstruction]
  refine mapM_map (fun ix => ?_) ixs
  simp [createMetaInnerInstruction, ConvertTo.createInnerInstructions, hinner]

theorem createRewardType_createRewardType (rewardType : Option RewardType) :
    createRewardType (ConvertTo.createRewardType rewardType).toI32 = .ok rewardType := by
  rw [createRewardType, Proto.RewardType.tryFrom_toI32, okOr_some]
  cases rewardType with
  | none => rfl
  | some rewardType => cases rewardType <;> rfl

theorem createReward_createReward (reward : Reward) :
    createReward (ConvertTo.createReward reward) = .ok reward := by
  obtain ⟨pubkey, lamports, postBalance, rewardType, commission, commissionBps⟩ := reward
  have hcommission : createCommission 8 ((commission.map fun c => c.toNat.repr).getD "")
      "failed to parse reward commission" = .ok (commission.map (·.toNat)) := by
    cases commission with
    | none => rfl
    | some c => exact createCommission_repr c.toNat_lt _
  have hcommissionBps : createCommission 16 ((commissionBps.map fun c => c.toNat.repr).getD "")
      "failed to parse reward commission_bps" = .ok (commissionBps.map (·.toNat)) := by
    cases commissionBps with
    | none => rfl
    | some c => exact createCommission_repr c.toNat_lt _
  simp only [createReward, ConvertTo.createReward, createRewardType_createRewardType, hcommission,
    hcommissionBps]
  cases commission <;> cases commissionBps <;> simp [bind, Except.bind, pure, Except.pure]

@[simp] theorem createReward_createRewards (rewards : List Reward) :
    (ConvertTo.createRewards rewards).mapM createReward = .ok rewards :=
  mapM_map createReward_createReward rewards

/-- The format has no absent amount. -/
def TransactionTokenBalance.forget (balance : TransactionTokenBalance) : TransactionTokenBalance :=
  { balance with
    uiTokenAmount := { balance.uiTokenAmount with uiAmount := some (balance.uiTokenAmount.uiAmount.getD 0) } }

theorem createTokenBalance_createTokenBalance (balance : TransactionTokenBalance) :
    createTokenBalance (ConvertTo.createTokenBalance balance) =
      .ok (TransactionTokenBalance.forget balance) := by
  simp [createTokenBalance, ConvertTo.createTokenBalance]
  rfl

@[simp] theorem createTokenBalances_createTokenBalances (balances : List TransactionTokenBalance) :
    createTokenBalances (ConvertTo.createTokenBalances balances) =
      .ok (balances.map TransactionTokenBalance.forget) := by
  induction balances with
  | nil => rfl
  | cons balance balances ih =>
    unfold createTokenBalances ConvertTo.createTokenBalances at ih ⊢
    rw [List.map_cons, List.mapM_cons, createTokenBalance_createTokenBalance, ih]
    rfl

@[simp] theorem createReturnData_createReturnData (returnData : Option TransactionReturnData) :
    createReturnData returnData.isNone (returnData.map ConvertTo.createReturnData) = .ok returnData := by
  cases returnData with
  | none => rfl
  | some returnData =>
    simp [createReturnData, ConvertTo.createReturnData]

section Meta

variable {E : Type} {serialize : E → Bytes} {deserialize : Bytes → Option E}

theorem createTxError_createTransactionError (hbincode : ∀ e, deserialize (serialize e) = some e)
    (status : Except E Unit) :
    createTxError deserialize (ConvertTo.createTransactionError serialize status) =
      .ok (match status with
        | .ok () => none
        | .error e => some e) := by
  cases status with
  | ok x => rfl
  | error e =>
    rw [ConvertTo.createTransactionError, createTxError, hbincode]
    rfl

/-- What the format has no field for: absent token balances, rewards and amounts. -/
def forget (statusMeta : TransactionStatusMeta E) : TransactionStatusMeta E :=
  { statusMeta with
    preTokenBalances := some ((statusMeta.preTokenBalances.getD []).map TransactionTokenBalance.forget)
    postTokenBalances := some ((statusMeta.postTokenBalances.getD []).map TransactionTokenBalance.forget)
    rewards := some (statusMeta.rewards.getD []) }

/-- What comes back. -/
theorem createTxMeta_createTransactionMeta (hbincode : ∀ e, deserialize (serialize e) = some e)
    (statusMeta : TransactionStatusMeta E) :
    createTxMeta deserialize (ConvertTo.createTransactionMeta serialize statusMeta) =
      .ok { forget statusMeta with
        innerInstructions := some (statusMeta.innerInstructions.getD [])
        logMessages := some (statusMeta.logMessages.getD []) } := by
  obtain ⟨status, fee, preBalances, postBalances, innerInstructions, logMessages, preTokenBalances,
    postTokenBalances, rewards, loadedAddresses, returnData, computeUnitsConsumed, costUnits⟩ := statusMeta
  -- an absent list is an empty one
  have hgetD : ∀ {α β : Type} (f : List α → List β), f [] = [] → ∀ l : Option (List α),
      (l.map f).getD [] = f (l.getD []) := by
    intro α β f hf l
    cases l with
    | none => exact hf.symm
    | some l => rfl
  unfold createTxMeta ConvertTo.createTransactionMeta
  simp only [hgetD ConvertTo.createInnerInstructionsVec rfl, hgetD ConvertTo.createTokenBalances rfl,
    hgetD ConvertTo.createRewards rfl, createTxError_createTransactionError hbincode,
    createReward_createRewards, createMetaInnerInstructions_createInnerInstructionsVec,
    createTokenBalances_createTokenBalances, createPubkeyVec_createPubkeys,
    createReturnData_createReturnData]
  cases status <;> rfl

/-- The meta comes back, up to what the format has no field for. -/
def RoundTrips (serialize : E → Bytes) (deserialize : Bytes → Option E)
    (statusMeta : TransactionStatusMeta E) : Prop :=
  ∃ statusMeta', createTxMeta deserialize (ConvertTo.createTransactionMeta serialize statusMeta) =
    .ok statusMeta' ∧ forget statusMeta' = forget statusMeta

/-- **The round trip of the conversions.** Every transaction comes back, and a meta does if and only if
its inner instructions and its log messages are present. -/
theorem conversion_round_trip (hbincode : ∀ e, deserialize (serialize e) = some e) :
    (∀ tx, createTxVersioned (ConvertTo.createTransaction tx) = .ok tx) ∧
      ∀ statusMeta, RoundTrips serialize deserialize statusMeta ↔
        statusMeta.innerInstructions ≠ none ∧ statusMeta.logMessages ≠ none := by
  refine ⟨createTxVersioned_createTransaction, fun statusMeta => ?_⟩
  unfold RoundTrips
  simp only [createTxMeta_createTransactionMeta hbincode, Except.ok.injEq, exists_eq_left']
  have hforget : ∀ balance, TransactionTokenBalance.forget (TransactionTokenBalance.forget balance) =
      TransactionTokenBalance.forget balance := fun _ => rfl
  have hmap : ∀ l : List TransactionTokenBalance,
      (l.map TransactionTokenBalance.forget).map TransactionTokenBalance.forget =
        l.map TransactionTokenBalance.forget := by
    intro l
    rw [List.map_map]
    exact List.map_congr_left fun balance _ => hforget balance
  simp only [forget, Option.getD_some, hmap, TransactionStatusMeta.mk.injEq, true_and, and_true]
  cases statusMeta.innerInstructions <;> cases statusMeta.logMessages <;> simp

/-- With the code of `AccountInUse`, the first of the errors. -/
theorem conversion_round_trip_account_in_use :
    (∀ e : Unit, (fun bytes : Bytes => if bytes = [0, 0, 0, 0] then some () else none)
      ((fun _ => [0, 0, 0, 0]) e) = some e) ∧
    RoundTrips (fun _ : Unit => [0, 0, 0, 0]) (fun bytes => if bytes = [0, 0, 0, 0] then some () else none)
      { status := .error ()
        fee := 5000
        preBalances := [10000]
        postBalances := [5000]
        innerInstructions := some []
        logMessages := some ["failed"]
        preTokenBalances := none
        postTokenBalances := none
        rewards := none
        loadedAddresses := ⟨[], []⟩
        returnData := none
        computeUnitsConsumed := some 0
        costUnits := none } :=
  have hbincode : ∀ e : Unit, (fun bytes : Bytes => if bytes = [0, 0, 0, 0] then some () else none)
      ((fun _ => [0, 0, 0, 0]) e) = some e := fun _ => rfl
  ⟨hbincode, ((conversion_round_trip hbincode).2 _).mpr ⟨by simp, by simp⟩⟩

/-- A meta without inner instructions and log messages, as of a validator that does not record them: both
come back as empty lists. -/
theorem absent_comes_back_empty :
    ¬ RoundTrips (fun _ : Unit => [0, 0, 0, 0]) (fun bytes => if bytes = [0, 0, 0, 0] then some () else none)
      { status := .ok ()
        fee := 5000
        preBalances := [10000]
        postBalances := [5000]
        innerInstructions := none
        logMessages := none
        preTokenBalances := none
        postTokenBalances := none
        rewards := none
        loadedAddresses := ⟨[], []⟩
        returnData := none
        computeUnitsConsumed := none
        costUnits := none } := by
  rintro ⟨statusMeta', h, hforget⟩
  cases h
  have hinner := congrArg TransactionStatusMeta.innerInstructions hforget
  cases hinner

end Meta

end Richat
