import Richat.Plugin.Message

/-!
# Both encoders write the same bytes

`Writes` relates the two passes of an encoder to what the generated type writes; there is one lemma for
each message, and the one of a nested message gives its length prefix.
-/

namespace Richat.Plugin

open Solana Lib.Protobuf ConvertTo

/-! ### Numbers as strings -/

theorem u8ToStaticStr_eq (num : UInt8) : u8ToStaticStr num = num.toNat.repr := by
  have h : ∀ i : Fin 256, numStrings.getD i.val "" = i.val.repr := by decide +kernel
  exact h ⟨num.toNat, num.toNat_lt⟩

theorem utf8_ofList (l : List Char) : utf8 (String.ofList l) = l.flatMap String.utf8EncodeChar := by
  unfold utf8
  rw [String.toUTF8_eq_toByteArray, String.toByteArray_ofList]
  simp [List.utf8Encode]

theorem utf8EncodeChar_digitChar : ∀ d < 10, String.utf8EncodeChar (Nat.digitChar d) = [UInt8.ofNat (48 + d)] := by
  decide

theorem u16ToStrLoop_eq : ∀ {index n fuel : ℕ} {ds : List Char}, n < 10 ^ (index + 1) → n < fuel →
    u16ToStrLoop (index + 1) n (ds.flatMap String.utf8EncodeChar) =
      (Nat.toDigitsCore 10 fuel n ds).flatMap String.utf8EncodeChar := by
  intro index
  induction index with
  | zero =>
    intro n fuel ds hn hfuel
    obtain ⟨fuel, rfl⟩ : ∃ f, fuel = f + 1 := ⟨fuel - 1, by omega⟩
    have hdiv : n / 10 = 0 := by omega
    rw [u16ToStrLoop, Nat.toDigitsCore]
    simp [hdiv, utf8EncodeChar_digitChar (n % 10) (Nat.mod_lt _ (by decide))]
  | succ index ih =>
    intro n fuel ds hn hfuel
    obtain ⟨fuel, rfl⟩ : ∃ f, fuel = f + 1 := ⟨fuel - 1, by omega⟩
    have hcons : UInt8.ofNat (48 + n % 10) :: ds.flatMap String.utf8EncodeChar =
        (Nat.digitChar (n % 10) :: ds).flatMap String.utf8EncodeChar := by
      rw [List.flatMap_cons, utf8EncodeChar_digitChar (n % 10) (Nat.mod_lt _ (by decide))]
      rfl
    rw [u16ToStrLoop, Nat.toDigitsCore]
    simp only [hcons]
    split
    · rfl
    · rw [pow_succ] at hn
      exact ih (by omega) (by omega)

theorem u16ToStr_eq (num : UInt16) : u16ToStr num = utf8 num.toNat.repr := by
  unfold Nat.repr Nat.toDigits
  have h := fun (fuel : ℕ) => @u16ToStrLoop_eq 4 num.toNat fuel [] (num.toNat_lt.trans (by decide))
  rw [utf8_ofList, u16ToStr]
  exact h _ (Nat.lt_succ_self _)

/-! ### Transactions -/

theorem writes_header (header : MessageHeader) : Writes (WireMessage.encodeRaw header)
    (WireMessage.encodedLen header) (WireMessage.encodeRaw (createHeader header)) := by
  refine .append (.append ?_ ?_) ?_ <;> exact .plain_uint32 (by decide) _

theorem writes_instruction (ix : CompiledInstruction) : Writes (WireMessage.encodeRaw ix)
    (WireMessage.encodedLen ix) (WireMessage.encodeRaw (createInstruction ix)) :=
  ((Writes.plain_uint32 (by decide) _).append (.plain_bytes (by decide) _)).append
    (.plain_bytes (by decide) _)

/-- A key is not the default. -/
theorem writes_key {tag n : ℕ} (htag : tag < 2 ^ 29) {value : Bytes} (h : value.length = n + 1) :
    Writes (bytesEncode tag value) (bytesEncodedLen tag value) (plain bytesEncode [] tag value) := by
  refine .plain_of_ne ?_ (.bytes htag value)
  rintro rfl
  cases h

theorem writes_lookup (lookup : MessageAddressTableLookup) : Writes (WireMessage.encodeRaw lookup)
    (WireMessage.encodedLen lookup) (WireMessage.encodeRaw (createLookup lookup)) :=
  ((writes_key (by decide) lookup.accountKey.2).append (.plain_bytes (by decide) _)).append
    (.plain_bytes (by decide) _)

theorem writes_config (config : TransactionConfig) : Writes (WireMessage.encodeRaw config)
    (WireMessage.encodedLen config) (WireMessage.encodeRaw (createTransactionConfig config)) := by
  refine .append (.append (.append ?_ ?_) ?_) ?_ <;>
    exact .optional_self _ fun _ => .varint (by decide) _

/-- Elements of one size, each with its key. -/
theorem writes_fixed {α : Type*} {tag n : ℕ} (htag : tag < 2 ^ 29) {bytes : α → Bytes}
    (hn : ∀ a, (bytes a).length = n) (values : List α) :
    Writes (values.flatMap fun a => bytesEncode tag (bytes a))
      ((keyLen tag + encodedLenVarint n + n) * values.length)
      (repeated bytesEncode tag (values.map bytes)) := by
  refine .flatMap_const fun a _ => ?_
  have h := Writes.bytes htag (bytes a)
  rwa [bytesEncodedLen, hn] at h

theorem writes_pubkeys {tag : ℕ} (htag : tag < 2 ^ 29) (pubkeys : List Pubkey) :
    Writes (pubkeysEncode tag pubkeys) (pubkeysEncodedLen tag pubkeys)
      (repeated bytesEncode tag (createPubkeys pubkeys)) :=
  writes_fixed htag (fun pubkey => pubkey.2) pubkeys

theorem writes_instructions (ixs : List CompiledInstruction) :
    Writes (message.encodeRepeated 4 ixs) (message.encodedLenRepeated 4 ixs)
      (repeated message.encode 4 (createInstructions ixs)) :=
  .messageRepeated (by decide) (fun ix _ => writes_instruction ix) fun _ => rfl

theorem writes_lookups (lookups : List MessageAddressTableLookup) :
    Writes (message.encodeRepeated 6 lookups) (message.encodedLenRepeated 6 lookups)
      (repeated message.encode 6 (createLookups lookups)) :=
  .messageRepeated (by decide) (fun lookup _ => writes_lookup lookup) fun _ => rfl

/-- The fields that all versions of a message have. -/
theorem writes_body (header : MessageHeader) (keys : List Pubkey) (hash : Hash)
    (ixs : List CompiledInstruction) (versioned : Bool) :
    Writes
      (message.encode 1 header ++ pubkeysEncode 2 keys ++ bytesEncode 3 hash.val ++
        message.encodeRepeated 4 ixs ++ versionedEncode 5 versioned)
      (message.encodedLen 1 header + pubkeysEncodedLen 2 keys + bytesEncodedLen 3 hash.val +
        message.encodedLenRepeated 4 ixs + versionedEncodedLen 5 versioned)
      (optional message.encode 1 (some (createHeader header)) ++
        repeated bytesEncode 2 (createPubkeys keys) ++ plain bytesEncode [] 3 hash.val ++
        repeated message.encode 4 (createInstructions ixs) ++ plain bool.encode false 5 versioned) := by
  refine .append (.append (.append (.append ?_ ?_) ?_) ?_) ?_
  · exact .message (by decide) (writes_header header) rfl
  · exact writes_pubkeys (by decide) keys
  · exact writes_key (by decide) hash.2
  · exact writes_instructions ixs
  · exact .plain_bool (by decide) versioned

theorem writes_message (msg : VersionedMessage) : Writes (WireMessage.encodeRaw msg)
    (WireMessage.encodedLen msg) (WireMessage.encodeRaw (createMessage msg)) := by
  cases msg with
  | legacy msg =>
    exact .append_nil ((writes_body msg.header msg.accountKeys msg.recentBlockhash msg.instructions
      false).append (writes_lookups []))
  | v0 msg =>
    exact .append_nil ((writes_body msg.header msg.accountKeys msg.recentBlockhash msg.instructions
      true).append (writes_lookups msg.addressTableLookups))
  | v1 msg =>
    -- no lookups
    exact .append (.append_nil (writes_body msg.header msg.accountKeys msg.lifetimeSpecifier
      msg.instructions true)) (.message (by decide) (writes_config msg.config) rfl)

theorem writes_transaction (tx : VersionedTransaction) : Writes (WireMessage.encodeRaw tx)
    (WireMessage.encodedLen tx) (WireMessage.encodeRaw (createTransaction tx)) :=
  (writes_fixed (by decide) (fun signature : Signature => signature.2) tx.signatures).append
    (.message (by decide) (writes_message tx.message) rfl)

/-! ### The meta of a transaction -/

theorem writes_innerInstruction (ix : InnerInstruction) : Writes (WireMessage.encodeRaw ix)
    (WireMessage.encodedLen ix) (WireMessage.encodeRaw (createInnerInstruction ix)) := by
  refine .append (.append (.append ?_ ?_) ?_) ?_
  · exact .plain_uint32 (by decide) _
  · exact .plain_bytes (by decide) _
  · exact .plain_bytes (by decide) _
  · exact .optional_self _ fun _ => .varint (by decide) _

theorem writes_innerInstructions (ixs : InnerInstructions) : Writes (WireMessage.encodeRaw ixs)
    (WireMessage.encodedLen ixs) (WireMessage.encodeRaw (createInnerInstructions ixs)) :=
  (Writes.plain_uint32 (by decide) _).append
    (.messageRepeated (by decide) (fun ix _ => writes_innerInstruction ix) fun _ => rfl)

theorem writes_amount (amount : UiTokenAmount) : Writes (WireMessage.encodeRaw amount)
    (WireMessage.encodedLen amount) (WireMessage.encodeRaw
      (⟨amount.uiAmount.getD 0, amount.decimals.toUInt32, amount.amount, amount.uiAmountString⟩ :
        Proto.UiTokenAmount)) := by
  refine .append (.append (.append ?_ ?_) ?_) ?_
  · exact .ite Iff.rfl fun _ => .double (by decide) _
  · exact .plain_uint32 (by decide) _
  · exact .plain_string (by decide) _
  · exact .plain_string (by decide) _

theorem writes_tokenBalance (balance : TransactionTokenBalance) : Writes (WireMessage.encodeRaw balance)
    (WireMessage.encodedLen balance) (WireMessage.encodeRaw (createTokenBalance balance)) := by
  refine .append (.append (.append (.append ?_ ?_) ?_) ?_) ?_
  · exact .plain_uint32 (by decide) _
  · exact .plain_string (by decide) _
  · exact .message (by decide) (writes_amount balance.uiTokenAmount) rfl
  · exact .plain_string (by decide) _
  · exact .plain_string (by decide) _

theorem writes_returnData (returnData : TransactionReturnData) : Writes (WireMessage.encodeRaw returnData)
    (WireMessage.encodedLen returnData) (WireMessage.encodeRaw (createReturnData returnData)) :=
  (writes_key (by decide) returnData.programId.2).append (.plain_bytes (by decide) _)

theorem repr_ne_empty (n : ℕ) : n.repr ≠ "" := by
  intro h
  unfold Nat.repr at h
  exact Nat.toDigits_ne_nil (String.ofList_eq_empty_iff.mp h)

/-- A number as a string, if it is there. -/
theorem writes_number {α : Type*} {tag : ℕ} (htag : tag < 2 ^ 29) {bytes : α → Bytes} {toNat : α → ℕ}
    (hbytes : ∀ a, bytes a = utf8 (toNat a).repr) (value : Option α) :
    Writes (value.elim [] fun a => bytesEncode tag (bytes a))
      (value.elim 0 fun a => bytesEncodedLen tag (bytes a))
      (plain string.encode "" tag ((value.map fun a => (toNat a).repr).getD "")) := by
  cases value with
  | none => exact .nil
  | some a =>
    simp only [Option.elim_some, hbytes]
    exact .plain_of_ne (repr_ne_empty _) (.string htag _)

theorem writes_reward (reward : Reward) : Writes (WireMessage.encodeRaw reward)
    (WireMessage.encodedLen reward) (WireMessage.encodeRaw (createReward reward)) := by
  have htype : rewardTypeAsI32 reward.rewardType = (createRewardType reward.rewardType).toI32 ∧
      (reward.rewardType.isSome ↔ (createRewardType reward.rewardType).toI32 ≠ 0) := by
    rcases reward.rewardType with - | - | - | - | - | - | - <;> decide
  refine .append (.append (.append (.append (.append ?_ ?_) ?_) ?_) ?_) ?_
  · exact .plain_string (by decide) _
  · exact .plain_int64 (by decide) _
  · exact .plain_uint64 (by decide) _
  · rw [htype.1]
    exact .plain htype.2 (.varint (by decide) _)
  · refine writes_number (by decide) (fun c => ?_) reward.commission
    rw [u8ToStaticStr_eq]
  · exact writes_number (by decide) u16ToStr_eq reward.commissionBps

section Meta

variable {E : Type} [SerializeError E]

theorem writes_error (err : E) : Writes (WireMessage.encodeRaw (⟨err⟩ : TransactionErrorWrapper E))
    (WireMessage.encodedLen (⟨err⟩ : TransactionErrorWrapper E))
    (WireMessage.encodeRaw (⟨SerializeError.serialize err⟩ : Proto.TransactionError)) :=
  .plain_bytes (by decide) _

theorem writes_status (status : Except E Unit) :
    Writes ((statusError status).elim [] (message.encode 1)) ((statusError status).elim 0 (message.encodedLen 1))
      (optional message.encode 1 (createTransactionError SerializeError.serialize status)) := by
  cases status with
  | ok => exact .nil
  | error err => exact .message (by decide) (writes_error err) rfl

/-- A list that may be absent, which is empty then. -/
theorem writes_list {α β : Type*} [WireMessage α] [WireMessage β] {tag : ℕ} (htag : tag < 2 ^ 29)
    {convert : α → β} (h : ∀ a, Writes (WireMessage.encodeRaw a) (WireMessage.encodedLen a)
      (WireMessage.encodeRaw (convert a)))
    (hlen : ∀ b : β, WireMessage.encodedLen b = (WireMessage.encodeRaw b).length) (value : Option (List α)) :
    Writes (value.elim [] (message.encodeRepeated tag)) (value.elim 0 (message.encodedLenRepeated tag))
      (repeated message.encode tag ((value.map (List.map convert)).getD [])) := by
  cases value with
  | none => exact .nil
  | some l => exact .messageRepeated htag (fun a _ => h a) hlen

theorem writes_logs (value : Option (List String)) :
    Writes (value.elim [] (string.encodeRepeated 6)) (value.elim 0 (string.encodedLenRepeated 6))
      (repeated string.encode 6 (value.getD [])) := by
  cases value with
  | none => exact .nil
  | some l => exact .stringRepeated (by decide) l

theorem writes_meta (status : TransactionStatusMeta E) : Writes (WireMessage.encodeRaw status)
    (WireMessage.encodedLen status)
    (WireMessage.encodeRaw (createTransactionMeta SerializeError.serialize status)) := by
  iterate 16 refine .append ?_ ?_
  · exact writes_status status.status
  · exact .plain_uint64 (by decide) _
  · exact .packed (by decide) _
  · exact .packed (by decide) _
  · exact writes_list (by decide) writes_innerInstructions (fun _ => rfl) _
  · exact writes_logs _
  · exact writes_list (by decide) writes_tokenBalance (fun _ => rfl) _
  · exact writes_list (by decide) writes_tokenBalance (fun _ => rfl) _
  · exact writes_list (by decide) writes_reward (fun _ => rfl) _
  · exact .plain_bool (by decide) _
  · exact .plain_bool (by decide) _
  · exact writes_pubkeys (by decide) _
  · exact writes_pubkeys (by decide) _
  · exact .optional fun returnData _ => .message (by decide) (writes_returnData returnData) rfl
  · exact .plain_bool (by decide) _
  · exact .optional_self _ fun _ => .varint (by decide) _
  · exact .optional_self _ fun _ => .varint (by decide) _

end Meta

/-! ### Updates -/

namespace Encoding

/-- Bytes that the length pass tests the other way. -/
theorem writes_nonempty {tag : ℕ} (htag : tag < 2 ^ 29) (value : Bytes) :
    Writes (if ¬ value.isEmpty then bytesEncode tag value else [])
      (if value.isEmpty then 0 else bytesEncodedLen tag value) (plain bytesEncode [] tag value) := by
  have h := Writes.plain_bytes htag value
  rwa [ite_not value.isEmpty (bytesEncodedLen tag value)] at h

theorem writes_accountInfo (account : ReplicaAccountInfo) : Writes (WireMessage.encodeRaw account)
    (WireMessage.encodedLen account) (WireMessage.encodeRaw
      ({ pubkey := account.pubkey.val
         lamports := account.lamports
         owner := account.owner.val
         executable := account.executable
         rentEpoch := account.rentEpoch
         data := account.data
         writeVersion := account.writeVersion
         txnSignature := account.txn.map (·.val) } : Proto.SubscribeUpdateAccountInfo)) := by
  iterate 7 refine .append ?_ ?_
  · exact writes_key (by decide) account.pubkey.2
  · exact .plain_uint64 (by decide) _
  · exact writes_key (by decide) account.owner.2
  · exact .plain_bool (by decide) _
  · exact .plain_uint64 (by decide) _
  · exact .plain_bytes (by decide) _
  · exact .plain_uint64 (by decide) _
  · exact .optional fun signature _ => .bytes (by decide) signature.val

theorem writes_slot (m : Slot) : Writes (WireMessage.encodeRaw m) (WireMessage.encodedLen m)
    (WireMessage.encodeRaw (⟨m.slot, m.parent, slotStatusAsI32 m.status, slotStatusAsDeadError m.status,
      m.bankId⟩ : Proto.SubscribeUpdateSlot)) := by
  iterate 4 refine .append ?_ ?_
  · exact .plain_uint64 (by decide) _
  · exact .optional_self _ fun _ => .varint (by decide) _
  · exact .plain Iff.rfl (.varint (by decide) _)
  · exact .optional_self _ fun _ => .string (by decide) _
  · exact .optional_self _ fun _ => .varint (by decide) _

theorem writes_transactionInfo {E : Type} [SerializeError E] (tx : ReplicaTransactionInfo E) :
    Writes (WireMessage.encodeRaw tx) (WireMessage.encodedLen tx) (WireMessage.encodeRaw
      ({ signature := tx.signature.val
         isVote := tx.isVote
         transaction := some (createTransaction tx.transaction)
         statusMeta := some (createTransactionMeta SerializeError.serialize tx.transactionStatusMeta)
         index := tx.index } : Proto.SubscribeUpdateTransactionInfo)) := by
  iterate 4 refine .append ?_ ?_
  · exact writes_key (by decide) tx.signature.2
  · exact .plain_bool (by decide) _
  · exact .message (by decide) (writes_transaction tx.transaction) rfl
  · exact .message (by decide) (writes_meta tx.transactionStatusMeta) rfl
  · exact .plain_uint64 (by decide) _

theorem writes_entry (m : Entry) : Writes (WireMessage.encodeRaw m) (WireMessage.encodedLen m)
    (WireMessage.encodeRaw (⟨m.entry.slot, m.entry.index, m.entry.numHashes, m.entry.hash.val,
      m.entry.executedTransactionCount, m.entry.startingTransactionIndex, m.bankId⟩ :
        Proto.SubscribeUpdateEntry)) := by
  iterate 6 refine .append ?_ ?_
  · exact .plain_uint64 (by decide) _
  · exact .plain_uint64 (by decide) _
  · exact .plain_uint64 (by decide) _
  · exact writes_key (by decide) m.entry.hash.2
  · exact .plain_uint64 (by decide) _
  · exact .plain_uint64 (by decide) _
  · exact .plain_uint64 (by decide) _

theorem writes_rewards (rewards : RewardsAndNumPartitions) : Writes (WireMessage.encodeRaw rewards)
    (WireMessage.encodedLen rewards)
    (WireMessage.encodeRaw (createRewardsObj rewards.rewards rewards.numPartitions)) :=
  (Writes.messageRepeated (by decide) (fun reward _ => writes_reward reward) fun _ => rfl).append
    (.optional fun _ _ => .message (by decide) (.ofEncodeRaw _) rfl)

theorem writes_blockMeta (m : BlockMeta) : Writes (WireMessage.encodeRaw m) (WireMessage.encodedLen m)
    (WireMessage.encodeRaw
      ({ slot := m.blockinfo.slot
         blockhash := m.blockinfo.blockhash
         rewards := some
          (createRewardsObj m.blockinfo.rewards.rewards m.blockinfo.rewards.numPartitions)
         blockTime := m.blockinfo.blockTime.map createTimestamp
         blockHeight := m.blockinfo.blockHeight.map createBlockHeight
         parentSlot := m.blockinfo.parentSlot
         parentBlockhash := m.blockinfo.parentBlockhash
         executedTransactionCount := m.blockinfo.executedTransactionCount
         entriesCount := m.blockinfo.entryCount
         bankId := m.bankId } : Proto.SubscribeUpdateBlockMeta)) := by
  iterate 9 refine .append ?_ ?_
  · exact .plain_uint64 (by decide) _
  · exact .plain_string (by decide) _
  · exact .message (by decide) (writes_rewards m.blockinfo.rewards) rfl
  · exact .optional fun _ _ => .message (by decide) (.ofEncodeRaw _) rfl
  · exact .optional fun _ _ => .message (by decide) (.ofEncodeRaw _) rfl
  · exact .plain_uint64 (by decide) _
  · exact .plain_string (by decide) _
  · exact .plain_uint64 (by decide) _
  · exact .plain_uint64 (by decide) _
  · exact .plain_uint64 (by decide) _

/-! ### Richat-only updates -/

theorem writes_loadedAddresses (addresses : Option LoadedAddresses) :
    Writes (addresses.elim [] fun a => pubkeysEncode 4 a.writable ++ pubkeysEncode 5 a.readonly)
      (addresses.elim 0 fun a => pubkeysEncodedLen 4 a.writable + pubkeysEncodedLen 5 a.readonly)
      (repeated bytesEncode 4 ((addresses.map fun a => createPubkeys a.writable).getD []) ++
        repeated bytesEncode 5 ((addresses.map fun a => createPubkeys a.readonly).getD [])) := by
  cases addresses with
  | none => exact .nil
  | some a => exact (writes_pubkeys (by decide) a.writable).append (writes_pubkeys (by decide) a.readonly)

theorem writes_deshredInfo (tx : ReplicaDeshredTransactionInfo) : Writes (WireMessage.encodeRaw tx)
    (WireMessage.encodedLen tx) (WireMessage.encodeRaw
      ({ signature := tx.signature.val
         isVote := tx.isVote
         transaction := some (createTransaction tx.transaction)
         loadedWritableAddresses := (tx.loadedAddresses.map fun a => createPubkeys a.writable).getD []
         loadedReadonlyAddresses := (tx.loadedAddresses.map fun a => createPubkeys a.readonly).getD []
         completedDataSetStartingShredIndex := tx.completedDataSetStartingShredIndex
         completedDataSetEndingShredIndexExclusive := tx.completedDataSetEndingShredIndexExclusive } :
        Proto.SubscribeUpdateDeshredTransactionInfo)) := by
  refine .append (.append (.append_pair (.append (.append ?_ ?_) ?_) ?_) ?_) ?_
  · exact writes_key (by decide) tx.signature.2
  · exact .plain_bool (by decide) _
  · exact .message (by decide) (writes_transaction tx.transaction) rfl
  · exact writes_loadedAddresses tx.loadedAddresses
  · exact .plain_uint32 (by decide) _
  · exact .plain_uint32 (by decide) _

theorem writes_socketAddr {tag : ℕ} (htag : tag < 2 ^ 29) (addr : Option SocketAddr) :
    Writes (socketAddrEncode tag addr) (socketAddrEncodedLen tag addr)
      (optional string.encode tag (addr.map (·.display))) :=
  .optional fun _ _ => .string htag _

theorem writes_u16 {tag : ℕ} (htag : tag < 2 ^ 29) (value : UInt16) :
    Writes (u16Encode tag value) (u16EncodedLen tag value) (plain uint32.encode 0 tag value.toUInt32) := by
  refine .plain (not_congr ?_) (.varint htag _)
  rw [← UInt16.toNat_inj, ← UInt32.toNat_inj, UInt16.toNat_toUInt32]
  rfl

theorem writes_contactInfo (info : ReplicaContactInfo) : Writes (WireMessage.encodeRaw info)
    (WireMessage.encodedLen info) (WireMessage.encodeRaw
      ({ pubkey := info.pubkey
         wallclock := info.wallclock
         outset := info.outset
         shredVersion := info.shredVersion.toUInt32
         versionMajor := info.versionMajor.toUInt32
         versionMinor := info.versionMinor.toUInt32
         versionPatch := info.versionPatch.toUInt32
         versionCommit := info.versionCommit
         versionFeatureSet := info.versionFeatureSet
         versionClientId := info.versionClientId.toUInt32
         gossip := info.gossip.map (·.display)
         tpuQuic := info.tpuQuic.map (·.display)
         tpuForwardsQuic := info.tpuForwardsQuic.map (·.display)
         tpuVoteUdp := info.tpuVoteUdp.map (·.display)
         tpuVoteQuic := info.tpuVoteQuic.map (·.display)
         tvuUdp := info.tvuUdp.map (·.display)
         tvuQuic := info.tvuQuic.map (·.display)
         serveRepairUdp := info.serveRepairUdp.map (·.display)
         serveRepairQuic := info.serveRepairQuic.map (·.display)
         rpc := info.rpc.map (·.display)
         rpcPubsub := info.rpcPubsub.map (·.display)
         alpenglow := info.alpenglow.map (·.display) } : Proto.SubscribeUpdateContactInfoNode)) := by
  iterate 21 refine .append ?_ ?_
  · exact writes_nonempty (by decide) _
  · exact .plain_uint64 (by decide) _
  · exact .plain_uint64 (by decide) _
  · exact writes_u16 (by decide) _
  · exact writes_u16 (by decide) _
  · exact writes_u16 (by decide) _
  · exact writes_u16 (by decide) _
  · exact .plain_uint32 (by decide) _
  · exact .plain_uint32 (by decide) _
  · exact writes_u16 (by decide) _
  all_goals exact writes_socketAddr (by decide) _

theorem writes_blockFooter (m : BlockFooter) (hhash : m.view.bankHash.length = 32) :
    Writes (WireMessage.encodeRaw m) (WireMessage.encodedLen m) (WireMessage.encodeRaw
      ({ slot := m.slot
         bankId := m.bankId
         version := m.view.version
         bankHash := m.view.bankHash
         blockProducerTimeNanos := m.view.blockProducerTimeNanos
         blockUserAgent := m.view.blockUserAgent
         footer := m.view.footer } : Proto.RichatOnly.SubscribeUpdateBlockFooter)) := by
  iterate 6 refine .append ?_ ?_
  · exact .plain_uint64 (by decide) _
  · exact .plain_uint64 (by decide) _
  · exact .plain_uint32 (by decide) _
  · exact writes_key (by decide) hhash
  · exact .plain_uint64 (by decide) _
  · exact writes_nonempty (by decide) _
  · exact writes_nonempty (by decide) _

theorem writes_entryUpdateParent (info : ReplicaEntryUpdateParentInfo) :
    Writes (WireMessage.encodeRaw info) (WireMessage.encodedLen info) (WireMessage.encodeRaw
      (⟨info.slot, info.clearedBankId, info.parentSlot, info.parentBlockId.val⟩ :
        Proto.RichatOnly.SubscribeUpdateEntryUpdateParent)) := by
  iterate 3 refine .append ?_ ?_
  · exact .plain_uint64 (by decide) _
  · exact .plain_uint64 (by decide) _
  · exact .plain_uint64 (by decide) _
  · exact writes_key (by decide) info.parentBlockId.2

theorem writes_deshredUpdateParent (info : ReplicaDeshredUpdateParentInfo) :
    Writes (WireMessage.encodeRaw info) (WireMessage.encodedLen info) (WireMessage.encodeRaw
      (⟨info.slot, info.updateParentFecSetIndex, info.parentSlot, info.parentBlockId.val⟩ :
        Proto.RichatOnly.SubscribeUpdateDeshredUpdateParent)) := by
  iterate 3 refine .append ?_ ?_
  · exact .plain_uint64 (by decide) _
  · exact .plain_uint32 (by decide) _
  · exact .plain_uint64 (by decide) _
  · exact writes_key (by decide) info.parentBlockId.2

end Encoding

/-! ### All messages -/

/-- The messages that are written with a length prefix. -/
inductive EncodedMessage (E : Type) where
  | account (m : Encoding.Account)
  | accountInfo (m : ReplicaAccountInfo)
  | slot (m : Encoding.Slot)
  | transaction (m : Encoding.Transaction E)
  | transactionInfo (m : ReplicaTransactionInfo E)
  | versionedTransaction (m : VersionedTransaction)
  | versionedMessage (m : VersionedMessage)
  | header (m : MessageHeader)
  | instruction (m : CompiledInstruction)
  | lookup (m : MessageAddressTableLookup)
  | config (m : TransactionConfig)
  | statusMeta (m : TransactionStatusMeta E)
  | error (m : TransactionErrorWrapper E)
  | innerInstructions (m : InnerInstructions)
  | innerInstruction (m : InnerInstruction)
  | tokenBalance (m : TransactionTokenBalance)
  | tokenAmount (m : UiTokenAmount)
  | reward (m : Reward)
  | returnData (m : TransactionReturnData)
  | entry (m : Encoding.Entry)
  | blockMeta (m : Encoding.BlockMeta)
  | rewards (m : RewardsAndNumPartitions)
  | deshredTransaction (m : Encoding.DeshredTransaction)
  | deshredInfo (m : ReplicaDeshredTransactionInfo)
  | contactInfo (m : ReplicaContactInfo)
  | contactInfoRemoved (m : Encoding.ContactInfoRemoved)
  | blockFooter (m : Encoding.BlockFooter) (hash : m.view.bankHash.length = 32)
  | entryUpdateParent (m : ReplicaEntryUpdateParentInfo)
  | deshredUpdateParent (m : ReplicaDeshredUpdateParentInfo)

namespace EncodedMessage

variable {E : Type} [SerializeError E]

/-- The bytes that are written and the size that is computed before. -/
def passes : EncodedMessage E → Bytes × ℕ
  | account m => (WireMessage.encodeRaw m, WireMessage.encodedLen m)
  | accountInfo m => (WireMessage.encodeRaw m, WireMessage.encodedLen m)
  | slot m => (WireMessage.encodeRaw m, WireMessage.encodedLen m)
  | transaction m => (WireMessage.encodeRaw m, WireMessage.encodedLen m)
  | transactionInfo m => (WireMessage.encodeRaw m, WireMessage.encodedLen m)
  | versionedTransaction m => (WireMessage.encodeRaw m, WireMessage.encodedLen m)
  | versionedMessage m => (WireMessage.encodeRaw m, WireMessage.encodedLen m)
  | header m => (WireMessage.encodeRaw m, WireMessage.encodedLen m)
  | instruction m => (WireMessage.encodeRaw m, WireMessage.encodedLen m)
  | lookup m => (WireMessage.encodeRaw m, WireMessage.encodedLen m)
  | config m => (WireMessage.encodeRaw m, WireMessage.encodedLen m)
  | statusMeta m => (WireMessage.encodeRaw m, WireMessage.encodedLen m)
  | error m => (WireMessage.encodeRaw m, WireMessage.encodedLen m)
  | innerInstructions m => (WireMessage.encodeRaw m, WireMessage.encodedLen m)
  | innerInstruction m => (WireMessage.encodeRaw m, WireMessage.encodedLen m)
  | tokenBalance m => (WireMessage.encodeRaw m, WireMessage.encodedLen m)
  | tokenAmount m => (WireMessage.encodeRaw m, WireMessage.encodedLen m)
  | reward m => (WireMessage.encodeRaw m, WireMessage.encodedLen m)
  | returnData m => (WireMessage.encodeRaw m, WireMessage.encodedLen m)
  | entry m => (WireMessage.encodeRaw m, WireMessage.encodedLen m)
  | blockMeta m => (WireMessage.encodeRaw m, WireMessage.encodedLen m)
  | rewards m => (WireMessage.encodeRaw m, WireMessage.encodedLen m)
  | deshredTransaction m => (WireMessage.encodeRaw m, WireMessage.encodedLen m)
  | deshredInfo m => (WireMessage.encodeRaw m, WireMessage.encodedLen m)
  | contactInfo m => (WireMessage.encodeRaw m, WireMessage.encodedLen m)
  | contactInfoRemoved m => (WireMessage.encodeRaw m, WireMessage.encodedLen m)
  | blockFooter m _ => (WireMessage.encodeRaw m, WireMessage.encodedLen m)
  | entryUpdateParent m => (WireMessage.encodeRaw m, WireMessage.encodedLen m)
  | deshredUpdateParent m => (WireMessage.encodeRaw m, WireMessage.encodedLen m)

end EncodedMessage

namespace Encoding

variable {E : Type} [SerializeError E]

theorem writes_account (m : Account) : Writes (WireMessage.encodeRaw m) (WireMessage.encodedLen m)
    (WireMessage.encodeRaw
      ({ account := some
          { pubkey := m.account.pubkey.val
            lamports := m.account.lamports
            owner := m.account.owner.val
            executable := m.account.executable
            rentEpoch := m.account.rentEpoch
            data := m.account.data
            writeVersion := m.account.writeVersion
            txnSignature := m.account.txn.map (·.val) }
         slot := m.slot
         isStartup := false
         bankId := m.bankId } : Proto.SubscribeUpdateAccount)) := by
  -- `is_startup` is never written
  refine .append (.append_nil (.append ?_ ?_)) ?_
  · exact .message (by decide) (writes_accountInfo m.account) rfl
  · exact .plain_uint64 (by decide) _
  · exact .optional_self _ fun _ => .varint (by decide) _

theorem writes_transactionUpdate (m : Transaction E) : Writes (WireMessage.encodeRaw m)
    (WireMessage.encodedLen m) (WireMessage.encodeRaw
      ({ transaction := some
          { signature := m.transaction.signature.val
            isVote := m.transaction.isVote
            transaction := some (createTransaction m.transaction.transaction)
            statusMeta := some
              (createTransactionMeta SerializeError.serialize m.transaction.transactionStatusMeta)
            index := m.transaction.index }
         slot := m.slot
         bankId := m.bankId } : Proto.SubscribeUpdateTransaction)) :=
  ((Writes.message (by decide) (writes_transactionInfo m.transaction) rfl).append
    (.plain_uint64 (by decide) _)).append (.plain_uint64 (by decide) _)

theorem writes_deshredTransaction (m : DeshredTransaction) : Writes (WireMessage.encodeRaw m)
    (WireMessage.encodedLen m) (WireMessage.encodeRaw
      ({ transaction := some
          { signature := m.transaction.signature.val
            isVote := m.transaction.isVote
            transaction := some (createTransaction m.transaction.transaction)
            loadedWritableAddresses :=
              (m.transaction.loadedAddresses.map fun a => createPubkeys a.writable).getD []
            loadedReadonlyAddresses :=
              (m.transaction.loadedAddresses.map fun a => createPubkeys a.readonly).getD []
            completedDataSetStartingShredIndex := m.transaction.completedDataSetStartingShredIndex
            completedDataSetEndingShredIndexExclusive :=
              m.transaction.completedDataSetEndingShredIndexExclusive }
         slot := m.slot } : Proto.SubscribeUpdateDeshredTransaction)) :=
  (Writes.message (by decide) (writes_deshredInfo m.transaction) rfl).append (.plain_uint64 (by decide) _)

theorem writes_contactInfoRemoved (m : ContactInfoRemoved) : Writes (WireMessage.encodeRaw m)
    (WireMessage.encodedLen m)
    (WireMessage.encodeRaw (⟨m.pubkey⟩ : Proto.SubscribeUpdateContactInfoRemoved)) :=
  writes_nonempty (by decide) _

end Encoding

open Encoding in
/-- Every size that is computed before is the one of the bytes. -/
theorem EncodedMessage.passes_eq {E : Type} [SerializeError E] (m : EncodedMessage E)
    (hlt : m.passes.1.length < 2 ^ 64) : m.passes.2 = m.passes.1.length := by
  have hsize : ∀ {out expected : Bytes} {len : ℕ}, Writes out len expected → out.length < 2 ^ 64 →
      len = out.length := by
    intro out expected len h hout
    obtain ⟨rfl, rfl⟩ := h (Or.inl hout)
    rfl
  cases m with
  | account m => exact hsize (writes_account m) hlt
  | accountInfo m => exact hsize (writes_accountInfo m) hlt
  | slot m => exact hsize (writes_slot m) hlt
  | transaction m => exact hsize (writes_transactionUpdate m) hlt
  | transactionInfo m => exact hsize (writes_transactionInfo m) hlt
  | versionedTransaction m => exact hsize (writes_transaction m) hlt
  | versionedMessage m => exact hsize (writes_message m) hlt
  | header m => exact hsize (writes_header m) hlt
  | instruction m => exact hsize (writes_instruction m) hlt
  | lookup m => exact hsize (writes_lookup m) hlt
  | config m => exact hsize (writes_config m) hlt
  | statusMeta m => exact hsize (writes_meta m) hlt
  | error m => exact hsize (writes_error m.error) hlt
  | innerInstructions m => exact hsize (writes_innerInstructions m) hlt
  | innerInstruction m => exact hsize (writes_innerInstruction m) hlt
  | tokenBalance m => exact hsize (writes_tokenBalance m) hlt
  | tokenAmount m => exact hsize (writes_amount m) hlt
  | reward m => exact hsize (writes_reward m) hlt
  | returnData m => exact hsize (writes_returnData m) hlt
  | entry m => exact hsize (writes_entry m) hlt
  | blockMeta m => exact hsize (writes_blockMeta m) hlt
  | rewards m => exact hsize (writes_rewards m) hlt
  | deshredTransaction m => exact hsize (writes_deshredTransaction m) hlt
  | deshredInfo m => exact hsize (writes_deshredInfo m) hlt
  | contactInfo m => exact hsize (writes_contactInfo m) hlt
  | contactInfoRemoved m => exact hsize (writes_contactInfoRemoved m) hlt
  | blockFooter m hash => exact hsize (writes_blockFooter m hash) hlt
  | entryUpdateParent m => exact hsize (writes_entryUpdateParent m) hlt
  | deshredUpdateParent m => exact hsize (writes_deshredUpdateParent m) hlt

namespace ProtobufMessage

variable {E C : Type} [SerializeError E] [SerializeFooter C]

theorem encodeWith_low {α β : Type} [WireMessage α] [WireMessage β] {m : α} {p : β} {tag : ℕ}
    {createdAt : Proto.Timestamp} (htag : tag < 11) (h : Writes (WireMessage.encodeRaw m)
      (WireMessage.encodedLen m) (WireMessage.encodeRaw p))
    (hlen : WireMessage.encodedLen p = (WireMessage.encodeRaw p).length)
    (hlt : (encodeWith createdAt tag m).length < 2 ^ 64) :
    encodeWith createdAt tag m = message.encode tag p ++ message.encode 11 createdAt := by
  unfold encodeWith at *
  rw [if_pos htag] at hlt ⊢
  exact ((Writes.message (by omega) h hlen).append
    (.message (by decide) (.ofEncodeRaw (WireMessage.encodeRaw createdAt)) rfl) (Or.inl hlt)).1

theorem encodeWith_high {α β : Type} [WireMessage α] [WireMessage β] {m : α} {p : β} {tag : ℕ}
    {createdAt : Proto.Timestamp} (htag : ¬ tag < 11) (htag' : tag < 2 ^ 29)
    (h : Writes (WireMessage.encodeRaw m) (WireMessage.encodedLen m) (WireMessage.encodeRaw p))
    (hlen : WireMessage.encodedLen p = (WireMessage.encodeRaw p).length)
    (hlt : (encodeWith createdAt tag m).length < 2 ^ 64) :
    encodeWith createdAt tag m = message.encode 11 createdAt ++ message.encode tag p := by
  unfold encodeWith at *
  rw [if_neg htag] at hlt ⊢
  exact ((Writes.message (by decide) (.ofEncodeRaw (WireMessage.encodeRaw createdAt)) rfl).append
    (.message htag' h hlen) (Or.inl hlt)).1

open Encoding in
/-- **The raw encoder writes what the generated types write**, and every nested message has the size that
is computed before it is written. -/
theorem encode_raw_eq_prost (msg : ProtobufMessage E C) (createdAt : Proto.Timestamp)
    (hlt : (msg.encodeRaw createdAt).length < 2 ^ 64) :
    msg.encodeRaw createdAt = msg.encodeProst createdAt ∧
      ∀ nested : EncodedMessage E, nested.passes.1.length < 2 ^ 64 →
        nested.passes.2 = nested.passes.1.length := by
  refine ⟨?_, EncodedMessage.passes_eq⟩
  cases msg with
  | account s bankId info => exact encodeWith_low (by decide) (writes_account ⟨s, bankId, info⟩) rfl hlt
  | slot s parent status bankId =>
    rw [encodeRaw] at hlt ⊢
    rw [encodeWith_low (by decide) (writes_slot ⟨s, parent, status, bankId⟩) rfl hlt]
    cases status <;> rfl
  | transaction s bankId tx =>
    exact encodeWith_low (by decide) (writes_transactionUpdate ⟨s, bankId, tx⟩) rfl hlt
  | blockMeta bankId info => exact encodeWith_low (by decide) (writes_blockMeta ⟨bankId, info⟩) rfl hlt
  | entry bankId info => exact encodeWith_low (by decide) (writes_entry ⟨bankId, info⟩) rfl hlt
  | deshredTransaction s tx =>
    exact encodeWith_high (by decide) (by decide) (writes_deshredTransaction ⟨s, tx⟩) rfl hlt
  | contactInfo info => exact encodeWith_high (by decide) (by decide) (writes_contactInfo info) rfl hlt
  | contactInfoRemoved pubkey =>
    exact encodeWith_high (by decide) (by decide) (writes_contactInfoRemoved ⟨pubkey⟩) rfl hlt
  | blockFooter s bankId footer =>
    exact encodeWith_high (by decide) (by decide)
      (writes_blockFooter ⟨s, bankId, .new footer⟩ footer.bankHash.2) rfl hlt
  | entryUpdateParent info =>
    exact encodeWith_high (by decide) (by decide) (writes_entryUpdateParent info) rfl hlt
  | deshredUpdateParent info =>
    exact encodeWith_high (by decide) (by decide) (writes_deshredUpdateParent info) rfl hlt

/-- Nothing is serialized in the message of the witness. -/
instance : SerializeError Unit := ⟨fun _ => []⟩

instance : SerializeFooter Unit := ⟨fun _ => none⟩

/-- An account that was written without a transaction. -/
def unsignedAccount : ProtobufMessage Unit Unit :=
  .account 7 (some 1)
    { pubkey := ⟨List.replicate 32 1, rfl⟩
      lamports := 300
      owner := ⟨List.replicate 32 2, rfl⟩
      executable := false
      rentEpoch := 18446744073709551615
      data := [1, 2, 3]
      writeVersion := 0
      txn := none }

theorem encode_raw_eq_prost_account :
    unsignedAccount.encodeRaw ⟨1700000000, 5⟩ = unsignedAccount.encodeProst ⟨1700000000, 5⟩ :=
  (encode_raw_eq_prost unsignedAccount ⟨1700000000, 5⟩ (by decide +kernel)).1

end ProtobufMessage

end Richat.Plugin
