import Richat.Convert.Wire
import Richat.Filter.Decode

/-!
# The limited decoder on what prost writes

For every kind of update there is one lemma: the limited decoder reads the bytes that the generated type
writes, with the values of its fields and the places where the others stand. Each is put together from the
fields of the message in the order of their tags.
-/

namespace Richat.Filter

open Lib.Protobuf Proto

/-! ### Length-delimited fields -/

section

variable {value rest : Bytes} {error : DecodeError} {message field : String} {bufLen : ℕ}

/-- Where a value stands in a buffer of the length `bufLen`, of which `rest` comes after it. -/
def place (bufLen : ℕ) (value rest : Bytes) : Range := ⟨bufLen - (value ++ rest).length, bufLen - rest.length⟩

theorem delimitedRange_encode (hlen : (value ++ rest).length < 2 ^ 64) :
    delimitedRange error bufLen (encodeVarint value.length ++ value ++ rest) =
      .ok (place bufLen value rest, rest) := by
  have hle : value.length ≤ (value ++ rest).length := by
    rw [List.length_append]
    omega
  unfold delimitedRange
  rw [List.append_assoc, decodeVarint_encode (hle.trans_lt hlen)]
  simp only [bind, Except.bind, List.drop_left, if_neg (Nat.not_lt_of_le hle)]
  rfl

theorem decodePubkey_encode (h : value.length = 32) :
    decodePubkey .lengthDelimited message field (encodeVarint value.length ++ value ++ rest) =
      .ok (⟨value, h⟩, rest) := by
  unfold decodePubkey
  rw [List.append_assoc, decodeVarint_encode (by omega)]
  simp only [bind, Except.bind, checkWireType, if_true, List.drop_left, List.take_left,
    if_neg (show ¬ (value ++ rest).length < value.length by rw [List.length_append]; omega)]
  exact dif_pos h

theorem reads_pubkey {α : Type} {mergeField : α → ℕ → WireType → Bytes → Except DecodeError (α × Bytes)}
    {tag : ℕ} {msg : α} (set : Pubkey → α → α) (hpos : 0 < tag) (htag : tag < 2 ^ 29) (h : value.length = 32)
    (hmerge : ∀ buf buf', (∀ message field,
        decodePubkey .lengthDelimited message field buf = .ok (⟨value, h⟩, buf')) →
      mergeField msg tag .lengthDelimited buf = .ok (set ⟨value, h⟩ msg, buf')) :
    Reads mergeField (plain bytesEncode [] tag value) rest msg (set ⟨value, h⟩ msg) := by
  have hne : value ≠ [] := by
    rintro rfl
    cases h
  unfold plain
  rw [if_neg hne]
  exact .bytes hpos htag fun _ => hmerge _ _ fun _ _ => decodePubkey_encode h

theorem signatureOffset_encode (h : value.length = 64) :
    signatureOffset message field .lengthDelimited bufLen (encodeVarint value.length ++ value ++ rest) =
      .ok (bufLen - (value ++ rest).length, rest) := by
  unfold signatureOffset
  rw [List.append_assoc, decodeVarint_encode (by omega)]
  simp only [bind, Except.bind, checkWireType, if_true, List.drop_left,
    if_neg (show ¬ (value ++ rest).length < value.length by rw [List.length_append]; omega),
    if_neg (not_not_intro (show value.length = signatureBytes from h))]
  rfl

end

/-! ### Entries -/

theorem reads_entry (bufLen : ℕ) (u : SubscribeUpdateEntry) (rest : Bytes) :
    Reads (UpdateOneofLimitedDecodeEntry.mergeField bufLen) (WireMessage.encodeRaw u) rest
      .default ⟨u.slot, u.index, u.executedTransactionCount, u.bankId⟩ := by
  iterate 6 apply Reads.append
  · exact .uint64 (fun v m => { m with slot := v }) _ (by decide) (by decide) rfl fun _ _ h => by
      simp only [UpdateOneofLimitedDecodeEntry.mergeField, h]
      rfl
  · exact .uint64 (fun v m => { m with index := v }) _ (by decide) (by decide) rfl fun _ _ h => by
      simp only [UpdateOneofLimitedDecodeEntry.mergeField, h]
      rfl
  · exact .uint64 (fun _ m => m) _ (by decide) (by decide) rfl fun _ _ h => by
      simp only [UpdateOneofLimitedDecodeEntry.mergeField, h]
      rfl
  · refine .plain (fun _ m => m) rfl fun _ => .bytes (by decide) (by decide) fun hlen => ?_
    simp only [UpdateOneofLimitedDecodeEntry.mergeField, delimitedRange_encode hlen]
    rfl
  · exact .uint64 (fun v m => { m with executedTransactionCount := v }) _ (by decide) (by decide) rfl
      fun _ _ h => by
        simp only [UpdateOneofLimitedDecodeEntry.mergeField, h]
        rfl
  · exact .uint64 (fun _ m => m) _ (by decide) (by decide) rfl fun _ _ h => by
      simp only [UpdateOneofLimitedDecodeEntry.mergeField, h]
      rfl
  · refine .uint64 (fun v (m : UpdateOneofLimitedDecodeEntry) => { m with bankId := v }) u.bankId ?_ ?_ rfl
      fun _ _ h => ?_
    · decide
    · decide
    · simp only [UpdateOneofLimitedDecodeEntry.mergeField, h]
      rfl

/-! ### Slots -/

/-- What stands after the `dead_error` of a slot. -/
def afterDeadError (u : SubscribeUpdateSlot) : Bytes := optional uint64.encode 5 u.bankId

theorem reads_slot (bufLen : ℕ) (u : SubscribeUpdateSlot) (rest : Bytes) :
    Reads (UpdateOneofLimitedDecodeSlot.mergeField bufLen) (WireMessage.encodeRaw u) rest .default
      ⟨u.slot, u.parent, u.status,
        u.deadError.map fun text => place bufLen (utf8 text) (afterDeadError u ++ rest), u.bankId⟩ := by
  iterate 4 apply Reads.append
  · exact .uint64 (fun v m => { m with slot := v }) _ (by decide) (by decide) rfl fun _ _ h => by
      simp only [UpdateOneofLimitedDecodeSlot.mergeField, h]
      rfl
  · exact .optional_uint64 (fun v m => { m with parent := v }) _ (by decide) (by decide) rfl fun _ _ _ h => by
      simp only [UpdateOneofLimitedDecodeSlot.mergeField, h]
      rfl
  · exact .int32 (fun v m => { m with status := v }) _ (by decide) (by decide) rfl fun _ _ h => by
      simp only [UpdateOneofLimitedDecodeSlot.mergeField, h]
      rfl
  · refine .optional (fun text m => { m with
      deadError := text.map fun text => place bufLen (utf8 text) (afterDeadError u ++ rest) }) rfl
      fun text _ => .bytes (by decide) (by decide) fun hlen => ?_
    simp only [UpdateOneofLimitedDecodeSlot.mergeField, delimitedRange_encode hlen]
    rfl
  · exact .optional_uint64 (fun v (m : UpdateOneofLimitedDecodeSlot) => { m with bankId := v }) u.bankId
      (by decide) (by decide) rfl fun _ _ _ h => by
        simp only [UpdateOneofLimitedDecodeSlot.mergeField, h]
        rfl

/-! ### Accounts -/

/-- What stands after the `data` of an account. -/
def afterData (a : SubscribeUpdateAccountInfo) : Bytes :=
  plain uint64.encode 0 7 a.writeVersion ++ optional bytesEncode 8 a.txnSignature

/-- Keys and signatures have their lengths. -/
structure AccountInfoWellFormed (a : SubscribeUpdateAccountInfo) : Prop where
  pubkey : a.pubkey.length = 32
  owner : a.owner.length = 32
  txnSignature : ∀ signature, a.txnSignature = some signature → signature.length = 64

/-- The account of an update that is read. -/
def accountRead (bufLen : ℕ) (offset : Option ℕ) (a : SubscribeUpdateAccountInfo) (h : AccountInfoWellFormed a)
    (rest : Bytes) : UpdateOneofLimitedDecodeAccount where
  account := offset
  pubkey := ⟨a.pubkey, h.pubkey⟩
  owner := ⟨a.owner, h.owner⟩
  lamports := a.lamports
  executable := a.executable
  rentEpoch := a.rentEpoch
  data := if a.data = [] then .default else place bufLen a.data (afterData a ++ rest)
  txnSignatureOffset := a.txnSignature.map fun signature => bufLen - (signature ++ rest).length
  writeVersion :=
    if a.writeVersion = 0 then 0
    else bufLen - (encodeVarint a.writeVersion.toNat ++ optional bytesEncode 8 a.txnSignature ++ rest).length
  slot := 0
  isStartup := false
  bankId := none

theorem reads_accountInfo (bufLen : ℕ) (offset : Option ℕ) (a : SubscribeUpdateAccountInfo) (h : AccountInfoWellFormed a)
    (rest : Bytes) :
    Reads (UpdateOneofLimitedDecodeAccount.accountMergeField bufLen) (WireMessage.encodeRaw a) rest
      { UpdateOneofLimitedDecodeAccount.default with account := offset } (accountRead bufLen offset a h rest) := by
  iterate 7 apply Reads.append
  · exact reads_pubkey (fun v m => { m with pubkey := v }) (by decide) (by decide) h.pubkey fun _ _ h => by
      simp only [UpdateOneofLimitedDecodeAccount.accountMergeField, h]
      rfl
  · exact .uint64 (fun v m => { m with lamports := v }) _ (by decide) (by decide) rfl fun _ _ h => by
      simp only [UpdateOneofLimitedDecodeAccount.accountMergeField, h]
      rfl
  · exact reads_pubkey (fun v m => { m with owner := v }) (by decide) (by decide) h.owner fun _ _ h => by
      simp only [UpdateOneofLimitedDecodeAccount.accountMergeField, h]
      rfl
  · exact .bool (fun v m => { m with executable := v }) _ (by decide) (by decide) rfl fun _ _ h => by
      simp only [UpdateOneofLimitedDecodeAccount.accountMergeField, h]
      rfl
  · exact .uint64 (fun v m => { m with rentEpoch := v }) _ (by decide) (by decide) rfl fun _ _ h => by
      simp only [UpdateOneofLimitedDecodeAccount.accountMergeField, h]
      rfl
  · refine .plain (fun data m => { m with
      data := if data = [] then .default else place bufLen data (afterData a ++ rest) }) rfl
      fun hdata => .bytes (by decide) (by decide) fun hlen => ?_
    simp only [UpdateOneofLimitedDecodeAccount.accountMergeField, delimitedRange_encode hlen,
      if_neg hdata]
    simp only [afterData, List.append_assoc]
    rfl
  · refine .plain (fun version m => { m with
      writeVersion := if version = 0 then 0
        else bufLen - (encodeVarint version.toNat ++ optional bytesEncode 8 a.txnSignature ++ rest).length }) rfl
      fun hversion => .field (by decide) (by decide) fun _ => ?_
    simp only [UpdateOneofLimitedDecodeAccount.accountMergeField, uint64.merge_encode, if_neg hversion]
    simp only [List.append_assoc]
    rfl
  · refine .optional (fun value (m : UpdateOneofLimitedDecodeAccount) => { m with
      txnSignatureOffset := value.map fun signature => bufLen - (signature ++ rest).length }) rfl
      fun signature hsignature => .bytes (by decide) (by decide) fun _ => ?_
    simp only [UpdateOneofLimitedDecodeAccount.accountMergeField,
      signatureOffset_encode (h.txnSignature signature hsignature)]
    rfl

theorem accountMerge_eq {bufLen : ℕ} {msg msg' : UpdateOneofLimitedDecodeAccount} {out rest : Bytes}
    (h : Reads (UpdateOneofLimitedDecodeAccount.accountMergeField bufLen) out rest msg msg')
    (hlen : (out ++ rest).length < 2 ^ 64) :
    UpdateOneofLimitedDecodeAccount.accountMerge bufLen msg (encodeVarint out.length ++ out ++ rest) =
      .ok (msg', rest) := by
  have hle : out.length ≤ (out ++ rest).length := by
    rw [List.length_append]
    omega
  unfold UpdateOneofLimitedDecodeAccount.accountMerge
  rw [List.append_assoc, decodeVarint_encode (hle.trans_lt hlen)]
  simp only [bind, Except.bind, if_neg (Nat.not_lt_of_le hle), Reads.limit_eq, h.mergeLoop_eq hlen rfl le_rfl,
    ne_eq, not_true, if_false]
  rfl

/-- What stands after the `account` of an account update. -/
def afterAccount (u : SubscribeUpdateAccount) : Bytes :=
  plain uint64.encode 0 2 u.slot ++ plain bool.encode false 3 u.isStartup ++ optional uint64.encode 4 u.bankId

theorem encodeRaw_account (u : SubscribeUpdateAccount) :
    WireMessage.encodeRaw u = optional message.encode 1 u.account ++ afterAccount u := by
  rw [afterAccount, ← List.append_assoc, ← List.append_assoc]
  rfl

theorem reads_afterAccount (bufLen : ℕ) (u : SubscribeUpdateAccount) (rest : Bytes)
    {msg : UpdateOneofLimitedDecodeAccount} (hslot : msg.slot = 0) (hstartup : msg.isStartup = false)
    (hbank : msg.bankId = none) :
    Reads (UpdateOneofLimitedDecodeAccount.mergeField bufLen) (afterAccount u) rest msg
      { msg with slot := u.slot, isStartup := u.isStartup, bankId := u.bankId } := by
  cases msg
  cases hslot
  cases hstartup
  cases hbank
  iterate 2 apply Reads.append
  · exact .uint64 (fun v m => { m with slot := v }) _ (by decide) (by decide) rfl fun _ _ h => by
      simp only [UpdateOneofLimitedDecodeAccount.mergeField, h]
      rfl
  · exact .bool (fun v m => { m with isStartup := v }) _ (by decide) (by decide) rfl fun _ _ h => by
      simp only [UpdateOneofLimitedDecodeAccount.mergeField, h]
      rfl
  · exact .optional_uint64 (fun v (m : UpdateOneofLimitedDecodeAccount) => { m with bankId := v }) u.bankId
      (by decide) (by decide) rfl fun _ _ _ h => by
        simp only [UpdateOneofLimitedDecodeAccount.mergeField, h]
        rfl

/-- Where the length of the nested account stands. -/
def accountPlace (bufLen : ℕ) (u : SubscribeUpdateAccount) (a : SubscribeUpdateAccountInfo) (rest : Bytes) : ℕ :=
  bufLen - (encodeVarint (WireMessage.encodeRaw a).length ++ WireMessage.encodeRaw a ++ afterAccount u ++ rest).length

theorem reads_account (bufLen : ℕ) (u : SubscribeUpdateAccount) {a : SubscribeUpdateAccountInfo}
    (ha : u.account = some a) (h : AccountInfoWellFormed a) (rest : Bytes) :
    Reads (UpdateOneofLimitedDecodeAccount.mergeField bufLen) (WireMessage.encodeRaw u) rest .default
      { accountRead bufLen (some (accountPlace bufLen u a rest)) a h (afterAccount u ++ rest) with
        slot := u.slot, isStartup := u.isStartup, bankId := u.bankId } := by
  have hraw : WireMessage.encodeRaw u = bytesEncode 1 (WireMessage.encodeRaw a) ++ afterAccount u := by
    rw [encodeRaw_account, ha]
    rfl
  rw [hraw]
  refine .append (.bytes (by decide) (by decide) fun hlen => ?_) (reads_afterAccount bufLen u rest rfl rfl rfl)
  have hplace : bufLen - (encodeVarint (WireMessage.encodeRaw a).length ++ WireMessage.encodeRaw a ++
      (afterAccount u ++ rest)).length = accountPlace bufLen u a rest := by
    rw [accountPlace, List.append_assoc, List.append_assoc, List.append_assoc]
  have hread := accountMerge_eq (reads_accountInfo bufLen (some (accountPlace bufLen u a rest)) a h
    (afterAccount u ++ rest)) hlen
  simp only [UpdateOneofLimitedDecodeAccount.mergeField, hplace, hread]
  rfl

theorem reads_account_none (bufLen : ℕ) (u : SubscribeUpdateAccount) (ha : u.account = none) (rest : Bytes) :
    Reads (UpdateOneofLimitedDecodeAccount.mergeField bufLen) (WireMessage.encodeRaw u) rest .default
      { UpdateOneofLimitedDecodeAccount.default with
        slot := u.slot, isStartup := u.isStartup, bankId := u.bankId } := by
  have hraw : WireMessage.encodeRaw u = afterAccount u := by
    rw [encodeRaw_account, ha]
    rfl
  rw [hraw]
  exact reads_afterAccount bufLen u rest rfl rfl rfl

/-! ### Transactions -/

/-- What stands after the `transaction` of a transaction update. -/
def afterTransaction (u : SubscribeUpdateTransaction) : Bytes :=
  plain uint64.encode 0 2 u.slot ++ plain uint64.encode 0 3 u.bankId

theorem reads_transaction (bufLen : ℕ) (u : SubscribeUpdateTransaction) (rest : Bytes) :
    Reads (UpdateOneofLimitedDecodeTransaction.mergeField bufLen) (WireMessage.encodeRaw u) rest .default
      ⟨u.transaction.map fun t => place bufLen (WireMessage.encodeRaw t) (afterTransaction u ++ rest),
        u.slot, u.bankId⟩ := by
  rw [afterTransaction, List.append_assoc]
  iterate 2 apply Reads.append
  · refine .optional (fun value m => { m with
      transaction := value.map fun t => place bufLen (WireMessage.encodeRaw t)
        (plain uint64.encode 0 2 u.slot ++ (plain uint64.encode 0 3 u.bankId ++ rest)) }) rfl
      fun t _ => .bytes (by decide) (by decide) fun hlen => ?_
    simp only [UpdateOneofLimitedDecodeTransaction.mergeField, delimitedRange_encode hlen]
    rfl
  · exact .uint64 (fun v m => { m with slot := v }) _ (by decide) (by decide) rfl fun _ _ h => by
      simp only [UpdateOneofLimitedDecodeTransaction.mergeField, h]
      rfl
  · exact .uint64 (fun v (m : UpdateOneofLimitedDecodeTransaction) => { m with bankId := v }) u.bankId
      (by decide) (by decide) rfl fun _ _ h => by
        simp only [UpdateOneofLimitedDecodeTransaction.mergeField, h]
        rfl

/-- The public keys among the values, added to those found before. -/
def addKeys (keys : Finset Pubkey) (values : List Bytes) : Finset Pubkey :=
  values.foldl (fun keys value => if h : value.length = 32 then insert ⟨value, h⟩ keys else keys) keys

section

variable {mergeField : UpdateOneofLimitedDecodeTransactionInfo → ℕ → WireType → Bytes →
  Except DecodeError (UpdateOneofLimitedDecodeTransactionInfo × Bytes)}
  {msg : UpdateOneofLimitedDecodeTransactionInfo} {rest : Bytes} {tag : ℕ} {field : String}

theorem reads_keys (hpos : 0 < tag) (htag : tag < 2 ^ 29)
    (hmerge : ∀ msg buf, mergeField msg tag .lengthDelimited buf =
      UpdateOneofLimitedDecodeTransactionInfo.insertKey field msg .lengthDelimited buf) :
    ∀ {values : List Bytes}, (∀ value ∈ values, value.length = 32) →
      Reads mergeField (repeated bytesEncode tag values) rest msg
        { msg with accountKeys := addKeys msg.accountKeys values } := by
  intro values
  induction values generalizing msg with
  | nil =>
    intro _
    exact .nil
  | cons value values ih =>
    intro hvalues
    have hvalue := hvalues value List.mem_cons_self
    have hfirst : Reads mergeField (bytesEncode tag value) (repeated bytesEncode tag values ++ rest) msg
        { msg with accountKeys := insert ⟨value, hvalue⟩ msg.accountKeys } := by
      refine .bytes hpos htag fun _ => ?_
      simp only [hmerge, UpdateOneofLimitedDecodeTransactionInfo.insertKey, decodePubkey_encode hvalue]
      rfl
    have hkeys : addKeys msg.accountKeys (value :: values) =
        addKeys (insert ⟨value, hvalue⟩ msg.accountKeys) values := by
      rw [addKeys, List.foldl_cons, dif_pos hvalue]
      rfl
    rw [hkeys]
    exact hfirst.append (ih fun v hv => hvalues v (List.mem_cons_of_mem _ hv))

end

theorem skip_eq {α : Type} (msg : α) (r : Except DecodeError Bytes) :
    (do return (msg, ← r) : Except DecodeError (α × Bytes)) = r.map fun buf => (msg, buf) := by
  cases r <;> rfl

theorem reads_transactionMessage (m : Proto.Message) (hkeys : ∀ key ∈ m.accountKeys, key.length = 32)
    (rest : Bytes) (msg : UpdateOneofLimitedDecodeTransactionInfo) :
    Reads UpdateOneofLimitedDecodeTransactionInfo.messageMergeField (WireMessage.encodeRaw m) rest msg
      { msg with accountKeys := addKeys msg.accountKeys m.accountKeys } := by
  iterate 6 apply Reads.append
  · exact Skips.optional (Skips.message _) (by decide) (by decide) _ fun _ _ => skip_eq _ _
  · exact reads_keys (by decide) (by decide) (fun _ _ => rfl) hkeys
  · exact Skips.plain Skips.bytes (by decide) (by decide) _ fun _ _ => skip_eq _ _
  · exact Skips.repeated (Skips.message _) (by decide) (by decide) _ fun _ _ _ => skip_eq _ _
  · exact Skips.plain Skips.bool (by decide) (by decide) _ fun _ _ => skip_eq _ _
  · exact Skips.repeated (Skips.message _) (by decide) (by decide) _ fun _ _ _ => skip_eq _ _
  · exact Skips.optional (Skips.message _) (show 0 < 7 by decide) (by decide) m.config fun _ _ => skip_eq _ _

theorem reads_transactionKeys (tx : Proto.Transaction)
    (hkeys : ∀ m, tx.message = some m → ∀ key ∈ m.accountKeys, key.length = 32) (rest : Bytes)
    (msg : UpdateOneofLimitedDecodeTransactionInfo) :
    Reads UpdateOneofLimitedDecodeTransactionInfo.transactionMergeField (WireMessage.encodeRaw tx) rest msg
      { msg with accountKeys := addKeys msg.accountKeys ((tx.message.map (·.accountKeys)).getD []) } := by
  apply Reads.append
  · exact Skips.repeated Skips.bytes (by decide) (by decide) _ fun _ _ _ => skip_eq _ _
  · refine Reads.optional (fun (value : Option Proto.Message) (msg : UpdateOneofLimitedDecodeTransactionInfo) => { msg with
      accountKeys := addKeys msg.accountKeys ((value.map (·.accountKeys)).getD []) }) rfl
      fun m hm => .bytes (show 0 < 2 by decide) (by decide) fun hlen => ?_
    have hread : UpdateOneofLimitedDecodeTransactionInfo.mergeTransactionMessage msg
        (encodeVarint (WireMessage.encodeRaw m).length ++ WireMessage.encodeRaw m ++ rest) =
          .ok ({ msg with accountKeys := addKeys msg.accountKeys m.accountKeys }, rest) :=
      (reads_transactionMessage m (hkeys m hm) rest msg).mergeLengthDelimited_eq hlen
    have hmerge : ∀ buf, UpdateOneofLimitedDecodeTransactionInfo.transactionMergeField msg 2 .lengthDelimited buf =
        UpdateOneofLimitedDecodeTransactionInfo.mergeTransactionMessage msg buf := fun _ => rfl
    exact (hmerge _).trans hread

/-- What stands after the `err` of a status. -/
def afterErr (m : TransactionStatusMeta) : Bytes :=
  plain uint64.encode 0 2 m.fee ++
    uint64.encodePacked 3 m.preBalances ++ uint64.encodePacked 4 m.postBalances ++
    repeated message.encode 5 m.innerInstructions ++ repeated string.encode 6 m.logMessages ++
    repeated message.encode 7 m.preTokenBalances ++ repeated message.encode 8 m.postTokenBalances ++
    repeated message.encode 9 m.rewards ++ plain bool.encode false 10 m.innerInstructionsNone ++
    plain bool.encode false 11 m.logMessagesNone ++
    repeated bytesEncode 12 m.loadedWritableAddresses ++
    repeated bytesEncode 13 m.loadedReadonlyAddresses ++ optional message.encode 14 m.returnData ++
    plain bool.encode false 15 m.returnDataNone ++ optional uint64.encode 16 m.computeUnitsConsumed ++
    optional uint64.encode 17 m.costUnits

theorem encodeRaw_statusMeta (m : TransactionStatusMeta) :
    WireMessage.encodeRaw m = optional message.encode 1 m.err ++ afterErr m := by
  simp only [afterErr, ← List.append_assoc]
  rfl

theorem reads_afterErr (bufLen : ℕ) (m : TransactionStatusMeta)
    (hwritable : ∀ key ∈ m.loadedWritableAddresses, key.length = 32)
    (hreadonly : ∀ key ∈ m.loadedReadonlyAddresses, key.length = 32) (rest : Bytes)
    (msg : UpdateOneofLimitedDecodeTransactionInfo) :
    Reads (UpdateOneofLimitedDecodeTransactionInfo.metaMergeField bufLen) (afterErr m) rest msg
      { msg with accountKeys :=
          addKeys (addKeys msg.accountKeys m.loadedWritableAddresses) m.loadedReadonlyAddresses } := by
  iterate 15 apply Reads.append
  · exact Skips.plain Skips.uint64 (by decide) (by decide) _ fun _ _ => skip_eq _ _
  · exact Skips.packed (by decide) (by decide) _ fun _ _ => skip_eq _ _
  · exact Skips.packed (by decide) (by decide) _ fun _ _ => skip_eq _ _
  · exact Skips.repeated (Skips.message _) (by decide) (by decide) _ fun _ _ _ => skip_eq _ _
  · exact Skips.repeated Skips.string (by decide) (by decide) _ fun _ _ _ => skip_eq _ _
  · exact Skips.repeated (Skips.message _) (by decide) (by decide) _ fun _ _ _ => skip_eq _ _
  · exact Skips.repeated (Skips.message _) (by decide) (by decide) _ fun _ _ _ => skip_eq _ _
  · exact Skips.repeated (Skips.message _) (by decide) (by decide) _ fun _ _ _ => skip_eq _ _
  · exact Skips.plain Skips.bool (by decide) (by decide) _ fun _ _ => skip_eq _ _
  · exact Skips.plain Skips.bool (by decide) (by decide) _ fun _ _ => skip_eq _ _
  · exact reads_keys (by decide) (by decide) (fun _ _ => rfl) hwritable
  · exact reads_keys (by decide) (by decide) (fun _ _ => rfl) hreadonly
  · exact Skips.optional (Skips.message _) (by decide) (by decide) _ fun _ _ => skip_eq _ _
  · exact Skips.plain Skips.bool (by decide) (by decide) _ fun _ _ => skip_eq _ _
  · exact Skips.optional Skips.uint64 (by decide) (by decide) _ fun _ _ => skip_eq _ _
  · exact Skips.optional Skips.uint64 (show 0 < 17 by decide) (by decide) m.costUnits
      fun _ _ => skip_eq _ _

theorem reads_statusMeta (bufLen : ℕ) (m : TransactionStatusMeta)
    (hwritable : ∀ key ∈ m.loadedWritableAddresses, key.length = 32)
    (hreadonly : ∀ key ∈ m.loadedReadonlyAddresses, key.length = 32) (rest : Bytes)
    {msg : UpdateOneofLimitedDecodeTransactionInfo} (herr : msg.err = none) :
    Reads (UpdateOneofLimitedDecodeTransactionInfo.metaMergeField bufLen) (WireMessage.encodeRaw m) rest msg
      { msg with
        accountKeys := addKeys (addKeys msg.accountKeys m.loadedWritableAddresses) m.loadedReadonlyAddresses
        err := m.err.map fun err => place bufLen (WireMessage.encodeRaw err) (afterErr m ++ rest) } := by
  rw [encodeRaw_statusMeta]
  have hfirst : Reads (UpdateOneofLimitedDecodeTransactionInfo.metaMergeField bufLen)
      (optional message.encode 1 m.err) (afterErr m ++ rest) msg
      { msg with err := m.err.map fun err => place bufLen (WireMessage.encodeRaw err) (afterErr m ++ rest) } := by
    cases msg
    cases herr
    refine Reads.optional (fun (value : Option Proto.TransactionError)
        (msg : UpdateOneofLimitedDecodeTransactionInfo) => { msg with
      err := value.map fun err => place bufLen (WireMessage.encodeRaw err) (afterErr m ++ rest) }) rfl
      fun err _ => .bytes (show 0 < 1 by decide) (by decide) fun hlen => ?_
    simp only [UpdateOneofLimitedDecodeTransactionInfo.metaMergeField, delimitedRange_encode hlen]
    rfl
  exact hfirst.append (reads_afterErr bufLen m hwritable hreadonly rest _)

theorem reads_transactionField (bufLen : ℕ) (tx : Proto.Transaction)
    (hkeys : ∀ m, tx.message = some m → ∀ key ∈ m.accountKeys, key.length = 32) (rest : Bytes)
    (msg : UpdateOneofLimitedDecodeTransactionInfo) :
    Reads (UpdateOneofLimitedDecodeTransactionInfo.mergeField bufLen) (message.encode 3 tx) rest msg
      { msg with accountKeys := addKeys msg.accountKeys ((tx.message.map (·.accountKeys)).getD []) } := by
  refine .bytes (show 0 < 3 by decide) (by decide) fun hlen => ?_
  have hread : UpdateOneofLimitedDecodeTransactionInfo.mergeTransaction msg
      (encodeVarint (WireMessage.encodeRaw tx).length ++ WireMessage.encodeRaw tx ++ rest) =
        .ok ({ msg with
          accountKeys := addKeys msg.accountKeys ((tx.message.map (·.accountKeys)).getD []) }, rest) :=
    (reads_transactionKeys tx hkeys rest msg).mergeLengthDelimited_eq hlen
  have hmerge : ∀ buf, UpdateOneofLimitedDecodeTransactionInfo.mergeField bufLen msg 3 .lengthDelimited buf =
      atField UpdateOneofLimitedDecodeTransactionInfo.structName "transaction"
        (UpdateOneofLimitedDecodeTransactionInfo.mergeTransaction msg buf) := fun _ => rfl
  exact (hmerge _).trans (congrArg _ hread)

theorem reads_metaField (bufLen : ℕ) (m : TransactionStatusMeta)
    (hwritable : ∀ key ∈ m.loadedWritableAddresses, key.length = 32)
    (hreadonly : ∀ key ∈ m.loadedReadonlyAddresses, key.length = 32) (rest : Bytes)
    {msg : UpdateOneofLimitedDecodeTransactionInfo} (herr : msg.err = none) :
    Reads (UpdateOneofLimitedDecodeTransactionInfo.mergeField bufLen) (message.encode 4 m) rest msg
      { msg with
        accountKeys := addKeys (addKeys msg.accountKeys m.loadedWritableAddresses) m.loadedReadonlyAddresses
        err := m.err.map fun err => place bufLen (WireMessage.encodeRaw err) (afterErr m ++ rest) } := by
  refine .bytes (show 0 < 4 by decide) (by decide) fun hlen => ?_
  have hread : UpdateOneofLimitedDecodeTransactionInfo.mergeMeta bufLen msg
      (encodeVarint (WireMessage.encodeRaw m).length ++ WireMessage.encodeRaw m ++ rest) = .ok _ :=
    (reads_statusMeta bufLen m hwritable hreadonly rest herr).mergeLengthDelimited_eq hlen
  have hmerge : ∀ buf, UpdateOneofLimitedDecodeTransactionInfo.mergeField bufLen msg 4 .lengthDelimited buf =
      atField UpdateOneofLimitedDecodeTransactionInfo.structName "meta"
        (UpdateOneofLimitedDecodeTransactionInfo.mergeMeta bufLen msg buf) := fun _ => rfl
  exact (hmerge _).trans (congrArg _ hread)

/-- The parts that the limited decoder needs are there, with the lengths of keys and signatures. -/
structure TransactionWellFormed (t : SubscribeUpdateTransactionInfo) (tx : Proto.Transaction)
    (m : TransactionStatusMeta) : Prop where
  signature : t.signature.length = 64
  transaction : t.transaction = some tx
  statusMeta : t.statusMeta = some m
  accountKeys : ∀ message, tx.message = some message → ∀ key ∈ message.accountKeys, key.length = 32
  writable : ∀ key ∈ m.loadedWritableAddresses, key.length = 32
  readonly : ∀ key ∈ m.loadedReadonlyAddresses, key.length = 32

/-- The parts of a transaction that both parsers need, with the lengths of keys; a signature may be left out. -/
structure TransactionParts (t : SubscribeUpdateTransactionInfo) (tx : Proto.Transaction)
    (m : TransactionStatusMeta) : Prop where
  transaction : t.transaction = some tx
  statusMeta : t.statusMeta = some m
  accountKeys : ∀ message, tx.message = some message → ∀ key ∈ message.accountKeys, key.length = 32
  writable : ∀ key ∈ m.loadedWritableAddresses, key.length = 32
  readonly : ∀ key ∈ m.loadedReadonlyAddresses, key.length = 32

theorem TransactionWellFormed.parts {t : SubscribeUpdateTransactionInfo} {tx : Proto.Transaction}
    {m : TransactionStatusMeta} (h : TransactionWellFormed t tx m) : TransactionParts t tx m :=
  ⟨h.transaction, h.statusMeta, h.accountKeys, h.writable, h.readonly⟩

/-- What stands after the signature of a transaction. -/
def afterSignature (t : SubscribeUpdateTransactionInfo) : Bytes :=
  plain bool.encode false 2 t.isVote ++ optional message.encode 3 t.transaction ++
    optional message.encode 4 t.statusMeta ++ plain uint64.encode 0 5 t.index

/-- The account keys of a transaction, with the loaded ones. -/
def keysOf (tx : Proto.Transaction) (m : TransactionStatusMeta) : Finset Pubkey :=
  addKeys (addKeys (addKeys ∅ ((tx.message.map (·.accountKeys)).getD [])) m.loadedWritableAddresses)
    m.loadedReadonlyAddresses

theorem encodeRaw_transactionInfo (t : SubscribeUpdateTransactionInfo) :
    WireMessage.encodeRaw t = plain bytesEncode [] 1 t.signature ++ afterSignature t := by
  simp only [afterSignature, ← List.append_assoc]
  rfl

theorem reads_afterSignature (bufLen : ℕ) {t : SubscribeUpdateTransactionInfo} {tx : Proto.Transaction}
    {m : TransactionStatusMeta} (h : TransactionParts t tx m) (offset : Option ℕ) (rest : Bytes) :
    Reads (UpdateOneofLimitedDecodeTransactionInfo.mergeField bufLen) (afterSignature t) rest
      { UpdateOneofLimitedDecodeTransactionInfo.default with signatureOffset := offset }
      { signatureOffset := offset
        isVote := t.isVote
        index := t.index
        accountKeys := keysOf tx m
        err := m.err.map fun err => place bufLen (WireMessage.encodeRaw err)
          (afterErr m ++ (plain uint64.encode 0 5 t.index ++ rest)) } := by
  rw [afterSignature, h.transaction, h.statusMeta]
  iterate 3 apply Reads.append
  · exact .bool (fun v m => { m with isVote := v }) _ (by decide) (by decide) rfl fun _ _ h => by
      simp only [UpdateOneofLimitedDecodeTransactionInfo.mergeField, h]
      rfl
  · exact reads_transactionField bufLen tx h.accountKeys _ _
  · exact reads_metaField bufLen m h.writable h.readonly _ rfl
  · exact .uint64 (fun v (m : UpdateOneofLimitedDecodeTransactionInfo) => { m with index := v }) t.index
      (by decide) (by decide) rfl fun _ _ h => by
        simp only [UpdateOneofLimitedDecodeTransactionInfo.mergeField, h]
        rfl

theorem reads_transactionInfo (bufLen : ℕ) {t : SubscribeUpdateTransactionInfo} {tx : Proto.Transaction}
    {m : TransactionStatusMeta} (h : TransactionWellFormed t tx m) (rest : Bytes) :
    Reads (UpdateOneofLimitedDecodeTransactionInfo.mergeField bufLen) (WireMessage.encodeRaw t) rest .default
      { signatureOffset := some (bufLen - (t.signature ++ (afterSignature t ++ rest)).length)
        isVote := t.isVote
        index := t.index
        accountKeys := keysOf tx m
        err := m.err.map fun err => place bufLen (WireMessage.encodeRaw err)
          (afterErr m ++ (plain uint64.encode 0 5 t.index ++ rest)) } := by
  have hsignature : t.signature ≠ [] := by
    intro hnil
    have hlen := h.signature
    rw [hnil] at hlen
    cases hlen
  have hfirst : Reads (UpdateOneofLimitedDecodeTransactionInfo.mergeField bufLen) (bytesEncode 1 t.signature)
      (afterSignature t ++ rest) .default { UpdateOneofLimitedDecodeTransactionInfo.default with
        signatureOffset := some (bufLen - (t.signature ++ (afterSignature t ++ rest)).length) } := by
    refine .bytes (by decide) (by decide) fun _ => ?_
    simp only [UpdateOneofLimitedDecodeTransactionInfo.mergeField, signatureOffset_encode h.signature]
    rfl
  rw [encodeRaw_transactionInfo, plain, if_neg hsignature]
  exact hfirst.append (reads_afterSignature bufLen h.parts _ rest)

/-! ### Updates -/

theorem reads_timestamp (t : Proto.Timestamp) (rest : Bytes) :
    Reads Timestamp.mergeField (WireMessage.encodeRaw t) rest ⟨0, 0⟩ t := by
  apply Reads.append
  · exact .int64 (fun v m => { m with seconds := v }) _ (by decide) (by decide) rfl fun _ _ h => by
      simp only [Timestamp.mergeField, h]
      rfl
  · exact .int32 (fun v (m : Proto.Timestamp) => { m with nanos := v }) t.nanos (by decide) (by decide) rfl
      fun _ _ h => by
        simp only [Timestamp.mergeField, h]
        rfl

section

open Proto.UpdateOneof

def kindOf : UpdateOneof → UpdateKind
  | account _ => .account
  | slot _ => .slot
  | transaction _ => .transaction
  | transactionStatus _ => .transactionStatus
  | block _ => .block
  | ping => .ping
  | pong _ => .pong
  | blockMeta _ => .blockMeta
  | entry _ => .entry
  | blockFooter _ => .blockFooter
  | entryUpdateParent _ => .entryUpdateParent

def tagOf : UpdateOneof → ℕ
  | account _ => 2
  | slot _ => 3
  | transaction _ => 4
  | transactionStatus _ => 10
  | block _ => 5
  | ping => 6
  | pong _ => 9
  | blockMeta _ => 7
  | entry _ => 8
  | blockFooter _ => 12
  | entryUpdateParent _ => 13

/-- The bytes of the nested message. -/
def bodyOf : UpdateOneof → Bytes
  | account update => WireMessage.encodeRaw update
  | slot update => WireMessage.encodeRaw update
  | transaction update => WireMessage.encodeRaw update
  | transactionStatus update => WireMessage.encodeRaw update
  | block update => WireMessage.encodeRaw update
  | ping => []
  | pong id => plain int32.encode 0 1 id
  | blockMeta update => WireMessage.encodeRaw update
  | entry update => WireMessage.encodeRaw update
  | blockFooter update => WireMessage.encodeRaw update
  | entryUpdateParent update => WireMessage.encodeRaw update

theorem encode_eq (v : UpdateOneof) : v.encode = bytesEncode (tagOf v) (bodyOf v) := by
  cases v <;> rfl

theorem ofTag_tagOf (v : UpdateOneof) : UpdateKind.ofTag (tagOf v) = some (kindOf v) := by
  cases v <;> rfl

theorem tagOf_bounds (v : UpdateOneof) : 1 < tagOf v ∧ tagOf v < 2 ^ 29 := by
  cases v <;> simp [tagOf]

end

/-- What stands after the `update_oneof` of an update. -/
def afterUpdate (u : SubscribeUpdate) : Bytes := optional message.encode 11 u.createdAt

theorem reads_filters (bufLen : ℕ) (filters : List String) (rest : Bytes) (msg : SubscribeUpdateLimitedDecode) :
    Reads (SubscribeUpdateLimitedDecode.mergeField bufLen) (repeated string.encode 1 filters) rest msg msg := by
  have hfold : filters.foldl (fun (msg : SubscribeUpdateLimitedDecode) _ => msg) msg = msg := by
    induction filters with
    | nil => rfl
    | cons filter filters ih => exact ih
  have hreads : Reads (SubscribeUpdateLimitedDecode.mergeField bufLen) (repeated string.encode 1 filters) rest msg
      (filters.foldl (fun msg _ => msg) msg) := by
    refine .repeated fun filter _ msg rest => .bytes (by decide) (by decide) fun hlen => ?_
    simp only [SubscribeUpdateLimitedDecode.mergeField, delimitedRange_encode hlen]
    rfl
  rwa [hfold] at hreads

theorem reads_updateOneof (bufLen : ℕ) (v : UpdateOneof) (rest : Bytes) :
    Reads (SubscribeUpdateLimitedDecode.mergeField bufLen) v.encode rest .default
      ⟨some ⟨kindOf v, place bufLen (bodyOf v) rest⟩, none, false⟩ := by
  obtain ⟨hpos, htag⟩ := tagOf_bounds v
  rw [encode_eq]
  refine .bytes (by omega) htag fun hlen => ?_
  simp only [SubscribeUpdateLimitedDecode.mergeField, if_neg (show tagOf v ≠ 1 by omega), ofTag_tagOf,
    UpdateOneofLimitedDecode.merge, delimitedRange_encode hlen]
  rfl

theorem reads_createdAt (bufLen : ℕ) (createdAt : Option Proto.Timestamp) (rest : Bytes)
    {msg : SubscribeUpdateLimitedDecode} (hnone : msg.createdAt = none) :
    Reads (SubscribeUpdateLimitedDecode.mergeField bufLen) (optional message.encode 11 createdAt) rest msg
      { msg with createdAt } := by
  cases createdAt with
  | none =>
    cases msg
    cases hnone
    exact .nil
  | some t =>
    refine .bytes (show 0 < 11 by decide) (by decide) fun hlen => ?_
    have hmerge : ∀ buf, message.merge Timestamp.mergeField .lengthDelimited ⟨0, 0⟩ buf = .ok (t, rest) →
        SubscribeUpdateLimitedDecode.mergeField bufLen msg 11 .lengthDelimited buf =
          .ok ({ msg with createdAt := some t }, rest) := by
      intro buf h
      simp only [SubscribeUpdateLimitedDecode.mergeField, hnone, Option.getD_none, h]
      rfl
    exact hmerge _ ((reads_timestamp t rest).message_merge_eq hlen)

theorem reads_update (bufLen : ℕ) (u : SubscribeUpdate) (rest : Bytes) :
    Reads (SubscribeUpdateLimitedDecode.mergeField bufLen) (WireMessage.encodeRaw u) rest .default
      ⟨u.updateOneof.map fun v => ⟨kindOf v, place bufLen (bodyOf v) (afterUpdate u ++ rest)⟩,
        u.createdAt, false⟩ := by
  refine .append (.append (reads_filters bufLen u.filters _ _) (?_ : Reads _ _ _ _
    ⟨u.updateOneof.map fun v => ⟨kindOf v, place bufLen (bodyOf v) (afterUpdate u ++ rest)⟩, none, false⟩))
    (reads_createdAt bufLen u.createdAt rest rfl)
  cases u.updateOneof with
  | none => exact .nil
  | some v => exact reads_updateOneof bufLen v _

end Richat.Filter
