import Richat.Filter.EncodeSpec
import Richat.Filter.WriteVersionLens

/-!
# The two messages of one update

Where both parsers accept what prost has written, its keys and signatures have their lengths, so both messages are
known. `Twins` is what the encoders find in them: the ranges of the limited message are the bytes that prost writes
for the parts of the other one. The accounts of a block may have got other write versions since they were parsed.
-/

namespace Richat.Filter

open Lib Lib.Protobuf Proto MessageParserLimited

/-! ### What both parsers accept -/

section

variable {u : SubscribeUpdate} {v : UpdateOneof} {t : Proto.Timestamp} {gen : Generated} {msg msg' : Filter.Message}

/-- Both parsers accept what prost has written for the update. -/
structure BothAccept (gen : Generated) (u : SubscribeUpdate) (msg msg' : Filter.Message) : Prop where
  reads : gen.Reads u
  /-- a vector holds the bytes -/
  fits : (WireMessage.encodeRaw u).length ≤ isizeMax
  limited : Message.parse gen (WireMessage.encodeRaw u) .limited = .ok msg
  prost : Message.parse gen (WireMessage.encodeRaw u) .prost = .ok msg'

theorem BothAccept.lt (h : BothAccept gen u msg msg') : (WireMessage.encodeRaw u).length < 2 ^ 64 := by
  have hfits := h.fits
  unfold isizeMax at hfits
  omega

/-- There are a nested message and a time, and both parsers go on with them. -/
theorem BothAccept.parseUpdate (h : BothAccept gen u msg msg') : ∃ v t, u.updateOneof = some v ∧ u.createdAt = some t ∧
    parseUpdate gen (WireMessage.encodeRaw u) t ⟨kindOf v, updateRange u v⟩ = .ok msg ∧
      MessageParserProst.parseUpdate t v.readBack = .ok msg' := by
  have hlimited := h.limited
  have hprost := h.prost
  cases ht : u.createdAt with
  | none =>
    have hdecode := limitedDecode_update h.lt
    rw [ht] at hdecode
    simp only [Message.parse, MessageParserLimited.parse, hdecode, ofDecode_ok, ok_bind] at hlimited
    cases hlimited
  | some t =>
    cases hv : u.updateOneof with
    | none =>
      have hread := h.reads.subscribeUpdate
      rw [SubscribeUpdate.readBack, hv, ht, Option.map_none] at hread
      simp only [Message.parse, MessageParserProst.parse, hread, h.reads.subscribeUpdateRichat hv, ofDecode_ok,
        ok_bind, Message.parseRichat, ht] at hprost
      cases hprost
    | some v =>
      rw [limited_parse hv ht h.lt] at hlimited
      rw [prost_parse h.reads hv ht] at hprost
      exact ⟨v, t, rfl, rfl, hlimited, hprost⟩

theorem indexRange_update (hv : u.updateOneof = some v) :
    indexRange (WireMessage.encodeRaw u) (updateRange u v) = .ok (bodyOf v) :=
  (indexRange_eq (place_in (suffix_update hv))).trans (congrArg Except.ok (slice_update hv))

theorem slotStatusToI32_tryFrom {value : Int32} {status : SlotStatus} (h : slotStatusTryFrom value = some status) :
    slotStatusToI32 status = value := by
  unfold slotStatusTryFrom at h
  split_ifs at h
  all_goals
    obtain rfl := Option.some.inj h
    symm
    assumption

end

/-! ### The lengths that the limited decoder asks for -/

/-- A field of bytes at the start of a loop. -/
theorem mergeLoop_bytes {α : Type} {mergeField : α → ℕ → WireType → Bytes → Except DecodeError (α × Bytes)}
    {msg msg' : α} {tag limit fuel : ℕ} {value rest rest' : Bytes} (hpos : 0 < tag) (htag : tag < 2 ^ 29)
    (hlimit : limit ≤ rest.length) (hfuel : (bytesEncode tag value ++ rest).length ≤ fuel)
    (h : mergeLoop mergeField limit fuel msg (bytesEncode tag value ++ rest) = .ok (msg', rest')) :
    ∃ msg₁ rest₁, mergeField msg tag .lengthDelimited (encodeVarint value.length ++ (value ++ rest)) =
      .ok (msg₁, rest₁) := by
  have hkey := List.length_pos_iff.mpr (encodeKey_ne_nil tag .lengthDelimited)
  have hlt : limit < (bytesEncode tag value ++ rest).length := by
    rw [bytesEncode, List.length_append, List.length_append, List.length_append]
    omega
  obtain ⟨fuel, rfl⟩ : ∃ f, fuel = f + 1 := ⟨fuel - 1, by omega⟩
  obtain ⟨tag', wireType, buf₁, msg₁, buf₂, hdecode, hfield, -⟩ := (mergeLoop_succ hlt).mp h
  simp only [bytesEncode, List.append_assoc] at hdecode
  rw [decodeKey_encode hpos htag] at hdecode
  obtain ⟨hpair, rfl⟩ := Prod.mk.inj (Except.ok.inj hdecode)
  obtain ⟨rfl, rfl⟩ := Prod.mk.inj hpair
  exact ⟨msg₁, buf₂, hfield⟩

section

variable {value rest rest' : Bytes} {bufLen : ℕ}

theorem length_of_signatureOffset {message field : String} {offset : ℕ} (hlen : value.length < 2 ^ 64)
    (h : signatureOffset message field .lengthDelimited bufLen (encodeVarint value.length ++ (value ++ rest)) =
      .ok (offset, rest')) : value.length = 64 := by
  obtain ⟨-, content, hcontent, hsize, -⟩ := signatureOffset_eq_ok h
  obtain ⟨rfl, -⟩ := content_unique (decodeVarint_encode hlen (value ++ rest)) hcontent
  exact hsize

end

section

variable {m : SubscribeUpdateAccount} {a : SubscribeUpdateAccountInfo} {read : UpdateOneofLimitedDecodeAccount}

/-- The limited decoder reads the nested account up to its signature. -/
theorem length_txnSignature {signature : Bytes} (ha : m.account = some a) (hpubkey : a.pubkey.length = 32)
    (howner : a.owner.length = 32) (hsignature : a.txnSignature = some signature)
    (hfits : (WireMessage.encodeRaw m).length < 2 ^ 64)
    (h : limitedDecode UpdateOneofLimitedDecodeAccount.mergeField .default (WireMessage.encodeRaw m) = .ok read) :
    signature.length = 64 := by
  have hwf : AccountInfoWellFormed { a with txnSignature := none } := by
    refine ⟨hpubkey, howner, ?_⟩
    intro signature hnone
    cases hnone
  have hraw : WireMessage.encodeRaw a =
      WireMessage.encodeRaw { a with txnSignature := none } ++ bytesEncode 8 signature := by
    rw [encodeRaw_accountInfo, encodeRaw_accountInfo]
    simp only [beforeData, afterData, hsignature, Lib.Protobuf.optional, Option.elim_some, Option.elim_none,
      List.append_assoc, List.append_nil]
  have hlt : (WireMessage.encodeRaw a ++ afterAccount m).length < 2 ^ 64 :=
    (suffix_account ha (List.suffix_refl (WireMessage.encodeRaw a))).length_le.trans_lt hfits
  have hlen : (WireMessage.encodeRaw a).length < 2 ^ 64 := by
    rw [List.length_append] at hlt
    omega
  -- the nested account is the first field of the update
  obtain ⟨⟨read₁, rest⟩, hloop, -⟩ := bind_eq_ok.mp h
  rw [encodeRaw_some_account ha] at hloop
  obtain ⟨msg₁, rest₁, hfield⟩ := mergeLoop_bytes (by decide) (by decide) (Nat.zero_le _) le_rfl hloop
  generalize (bytesEncode 1 (WireMessage.encodeRaw a) ++ afterAccount m).length = bufLen at hfield
  rcases UpdateOneofLimitedDecodeAccount.mergeField_eq_ok hfield with ⟨-, -, content, hcontent, hnested⟩ | ⟨hne, -⟩
  swap
  · exact absurd rfl hne
  obtain ⟨rfl, rfl⟩ := content_unique (decodeVarint_encode hlen _) hcontent
  -- and the signature is its last one
  rw [hraw] at hnested hlt hlen
  have hnested := hnested.mergeLoop_eq (Nat.le_add_right _ (afterAccount m).length)
  rw [← List.length_append, List.append_assoc] at hnested
  rw [List.append_assoc] at hlt
  obtain ⟨fuel, hfuel, heq⟩ := reads_accountInfo bufLen _ { a with txnSignature := none } hwf
    (bytesEncode 8 signature ++ afterAccount m) hlt (afterAccount m).length _
    (by rw [List.length_append]; omega) le_rfl
  rw [heq] at hnested
  obtain ⟨msg₂, rest₂, hfield⟩ := mergeLoop_bytes (by decide) (by decide) le_rfl hfuel hnested
  obtain ⟨-, hplaces⟩ := UpdateOneofLimitedDecodeAccount.accountMergeField_eq_ok hfield
  obtain ⟨content, hcontent, hsize, -⟩ := hplaces.signatureSet rfl
  have hlen' : signature.length < 2 ^ 64 := by
    simp only [List.length_append, bytesEncode] at hlen
    omega
  obtain ⟨rfl, -⟩ := content_unique (decodeVarint_encode hlen' _) hcontent
  exact hsize

/-- What both parsers accept is well formed. -/
theorem accountInfo_of_accepted {t : Proto.Timestamp} {msg : Filter.Message} (ha : m.account = some a)
    (hfits : (WireMessage.encodeRaw m).length < 2 ^ 64)
    (h : limitedDecode UpdateOneofLimitedDecodeAccount.mergeField .default (WireMessage.encodeRaw m) = .ok read)
    (hprost : MessageParserProst.parseAccount t m = .ok msg) :
    ∃ hwf : AccountInfoWellFormed a, msg = .account (.prost
      ⟨⟨a.pubkey, hwf.pubkey⟩, ⟨a.owner, hwf.owner⟩, a, m.slot, m.isStartup, m.bankId, t⟩) := by
  rw [MessageParserProst.parseAccount, ha] at hprost
  obtain ⟨created, hcreate, hmsg⟩ := bind_eq_ok.mp hprost
  obtain ⟨pubkey, hpubkey, hcreate⟩ := bind_eq_ok.mp hcreate
  obtain ⟨owner, howner, hcreate⟩ := bind_eq_ok.mp hcreate
  unfold pubkeyTryFrom at hpubkey howner
  split at hpubkey
  · rename_i hkey
    split at howner
    · rename_i hkey'
      obtain rfl := Except.ok.inj hpubkey
      obtain rfl := Except.ok.inj howner
      obtain rfl := Except.ok.inj hcreate
      have hwf : AccountInfoWellFormed a :=
        ⟨hkey, hkey', fun signature hsignature => length_txnSignature ha hkey hkey' hsignature hfits h⟩
      exact ⟨hwf, (Except.ok.inj hmsg).symm⟩
    · cases howner
  · cases hpubkey

end

section

variable {m : SubscribeUpdateTransaction} {info : SubscribeUpdateTransactionInfo} {tx : Proto.Transaction}
  {statusMeta : TransactionStatusMeta} {t : Proto.Timestamp} {gen : Generated}

theorem length_signature {read : UpdateOneofLimitedDecodeTransactionInfo}
    (hfits : (WireMessage.encodeRaw info).length < 2 ^ 64)
    (h : limitedDecode UpdateOneofLimitedDecodeTransactionInfo.mergeField .default (WireMessage.encodeRaw info) =
      .ok read) : info.signature = [] ∨ info.signature.length = 64 := by
  by_cases hnil : info.signature = []
  · exact .inl hnil
  · have hraw : WireMessage.encodeRaw info = bytesEncode 1 info.signature ++ afterSignature info := by
      rw [encodeRaw_transactionInfo, plain, if_neg hnil]
    obtain ⟨⟨read₁, rest⟩, hloop, -⟩ := bind_eq_ok.mp h
    rw [hraw] at hloop hfits
    obtain ⟨msg₁, rest₁, hfield⟩ := mergeLoop_bytes (by decide) (by decide) (Nat.zero_le _) le_rfl hloop
    obtain ⟨⟨offset, buf⟩, hoffset, -⟩ := bind_eq_ok.mp hfield
    refine .inr (length_of_signatureOffset ?_ hoffset)
    simp only [List.length_append, bytesEncode] at hfits
    omega

theorem length_of_insertKeys {values : List Bytes} : ∀ {keys keys' : Finset Pubkey},
    MessageTransaction.insertKeys keys values = .ok keys' → ∀ value ∈ values, value.length = 32 := by
  induction values with
  | nil => exact fun _ _ hmem => by cases hmem
  | cons value values ih =>
    intro keys keys' h
    unfold MessageTransaction.insertKeys at h
    rw [List.foldlM_cons] at h
    obtain ⟨keys₁, hfirst, hrest⟩ := bind_eq_ok.mp h
    obtain ⟨pubkey, hpubkey, -⟩ := bind_eq_ok.mp hfirst
    have hvalue : value.length = 32 := by
      unfold pubkeyTryFrom at hpubkey
      split at hpubkey
      · assumption
      · cases hpubkey
    exact List.forall_mem_cons.mpr ⟨hvalue, ih hrest⟩

/-- The parts that prost asks for. -/
theorem transactionParts_of_accepted {slot bankId : UInt64} {msg : MessageTransaction}
    (h : MessageParserProst.createTransaction t info.readBack slot bankId = .ok msg) :
    ∃ tx statusMeta, TransactionParts info tx statusMeta ∧
      msg = .prost ⟨statusMeta.err, keysOf tx statusMeta, info.readBack, slot, bankId, t⟩ := by
  cases hmeta : info.statusMeta with
  | none =>
    have hmeta' : info.readBack.statusMeta = none := by
      rw [SubscribeUpdateTransactionInfo.readBack, hmeta]
      rfl
    rw [MessageParserProst.createTransaction, hmeta'] at h
    cases h
  | some statusMeta =>
    have hmeta' : info.readBack.statusMeta = some statusMeta.readBack := by
      rw [SubscribeUpdateTransactionInfo.readBack, hmeta]
      rfl
    rw [MessageParserProst.createTransaction, hmeta'] at h
    obtain ⟨keys, hkeys, hmsg⟩ := bind_eq_ok.mp h
    cases htx : info.transaction with
    | none =>
      have htx' : info.readBack.transaction = none := htx
      rw [MessageTransaction.genAccountKeysProst, htx'] at hkeys
      cases hkeys
    | some tx =>
      have htx' : info.readBack.transaction = some tx := htx
      have hall := hkeys
      rw [MessageTransaction.genAccountKeysProst, htx'] at hall
      obtain ⟨keys₁, hstatic, hall⟩ := bind_eq_ok.mp hall
      obtain ⟨keys₂, hwritable, hreadonly⟩ := bind_eq_ok.mp hall
      have hparts : TransactionParts info tx statusMeta := by
        refine ⟨htx, hmeta, ?_, length_of_insertKeys hwritable, length_of_insertKeys hreadonly⟩
        intro message hmessage key hkey
        refine length_of_insertKeys hstatic key ?_
        rw [hmessage]
        exact hkey
      obtain rfl := Except.ok.inj (hkeys.symm.trans (genAccountKeysProst_eq hparts))
      exact ⟨tx, statusMeta, hparts, (Except.ok.inj hmsg).symm⟩

end

/-! ### What the encoders find in both messages -/

/-- The limited parser has found a write version: prost leaves out a zero. -/
def LimitedAccount.HasVersion (msg : LimitedAccount) : Prop := msg.accountOffset < msg.writeVersion

instance (msg : LimitedAccount) : Decidable msg.HasVersion := Nat.decLt _ _

structure SlotTwins (msg : LimitedSlot) (msg' : ProstSlot) : Prop where
  createdAt : msg.createdAt = msg'.createdAt
  status : msg.status = msg'.status
  bytes : indexRange msg.buffer msg.range = .ok (WireMessage.encodeRaw
    (⟨msg'.slot, msg'.parent, slotStatusToI32 msg'.status, msg'.deadError, msg'.bankId⟩ : SubscribeUpdateSlot))

structure AccountTwins (msg : LimitedAccount) (msg' : ProstAccount) : Prop where
  createdAt : msg.createdAt = msg'.createdAt
  slot : msg.slot = msg'.slot
  isStartup : msg.isStartup = msg'.isStartup
  bankId : msg.bankId = msg'.bankId
  pubkey : msg.pubkey = msg'.pubkey
  owner : msg.owner = msg'.owner
  pubkeyBytes : msg.pubkey.val = msg'.account.pubkey
  ownerBytes : msg.owner.val = msg'.account.owner
  lamports : msg.lamports = msg'.account.lamports
  executable : msg.executable = msg'.account.executable
  rentEpoch : msg.rentEpoch = msg'.account.rentEpoch
  data : indexRange msg.buffer msg.data = .ok msg'.account.data
  txnSignature : (msg.txnSignatureOffset.mapM fun offset => indexRange msg.buffer ⟨offset, offset + 64⟩) =
    .ok msg'.account.txnSignature
  /-- the first byte of the update is read for a write version that was left out -/
  writeVersion : indexVarint msg.buffer msg.writeVersion =
    .ok (if msg.HasVersion then msg'.account.writeVersion else 10)
  omitted : ¬ msg.HasVersion → msg'.account.writeVersion = 0

structure TransactionTwins (msg : LimitedTransaction) (msg' : ProstTransaction) : Prop where
  createdAt : msg.createdAt = msg'.createdAt
  slot : msg.slot = msg'.slot
  bankId : msg.bankId = msg'.bankId
  isVote : msg.isVote = msg'.transaction.isVote
  index : msg.index = msg'.transaction.index
  error : msg.error = msg'.error
  accountKeys : msg.accountKeys = msg'.accountKeys
  bytes : indexRange msg.buffer msg.range = .ok (WireMessage.encodeRaw
    (⟨some msg'.transaction, msg'.slot, msg'.bankId⟩ : SubscribeUpdateTransaction))
  info : indexRange msg.buffer msg.transactionRange = .ok (WireMessage.encodeRaw msg'.transaction)
  signature : ∀ offset, msg.signatureOffset = some offset →
    indexRange msg.buffer ⟨offset, offset + signatureBytes⟩ = .ok msg'.transaction.signature

structure EntryTwins (msg : LimitedEntry) (msg' : ProstEntry) : Prop where
  createdAt : msg.createdAt = msg'.createdAt
  bytes : indexRange msg.buffer msg.range = .ok (WireMessage.encodeRaw msg'.entry)

structure BlockMetaTwins (msg : LimitedBlockMeta) (msg' : ProstBlockMeta) : Prop where
  createdAt : msg.createdAt = msg'.createdAt
  blockMeta : msg.blockMeta = msg'.blockMeta
  bytes : indexRange msg.buffer msg.range = .ok (WireMessage.encodeRaw msg'.blockMeta)

/-! ### Accounts -/

theorem encodedLenVarint_mono {n n' : ℕ} (hle : n ≤ n') (hlt : n' < 2 ^ 64) :
    encodedLenVarint n ≤ encodedLenVarint n' := by
  rw [encodedLenVarint_eq (hle.trans_lt hlt), encodedLenVarint_eq hlt]
  exact Nat.add_le_add_right (Nat.log_mono_right hle) 1

theorem indexRange_signature {buffer signature : Bytes} {start : ℕ} (h : StandsAt buffer start signature)
    (hlen : signature.length = 64) : indexRange buffer ⟨start, start + signatureBytes⟩ = .ok signature := by
  have hle := h.length_le
  rw [hlen] at hle
  exact (indexRange_eq ⟨Nat.le_add_right _ _, hle⟩).trans (congrArg Except.ok (slice_eq h (by rw [hlen]; rfl)))

theorem indexVarint_eq {buffer : Bytes} {offset : ℕ} {value : UInt64} (h : varintAt buffer offset = some value) :
    indexVarint buffer offset = .ok value := by
  have hle : offset ≤ buffer.length := by
    by_contra hlt
    have hnil : buffer.drop offset = [] := List.drop_eq_nil_of_le (by omega)
    rw [varintAt, hnil] at h
    cases h
  rw [indexVarint, if_pos hle, h]

section

variable {m : SubscribeUpdateAccount} {a : SubscribeUpdateAccountInfo} {data : Bytes} {range : Range}
  {t : Proto.Timestamp}

/-- Places of the nested account, counted from the start of the update. -/
structure AccountPlaces (data : Bytes) (range : Range) (t : Proto.Timestamp) (m : SubscribeUpdateAccount)
    (a : SubscribeUpdateAccountInfo) (h : AccountInfoWellFormed a) : Prop where
  accountOffset : (limitedAccount data range t m a h).accountOffset = 1 + range.start
  dataStart : a.data ≠ [] → 1 + range.start < (limitedAccount data range t m a h).data.start
  writeVersion : (limitedAccount data range t m a h).HasVersion ↔ a.writeVersion ≠ 0
  signature : ∀ offset ∈ (limitedAccount data range t m a h).txnSignatureOffset, 1 + range.start < offset

theorem accountPlaces (ha : m.account = some a) (h : AccountInfoWellFormed a) : AccountPlaces data range t m a h := by
  have hkey : (encodeKey 1 .lengthDelimited).length = 1 := rfl
  have hpos := List.length_pos_iff.mpr (encodeVarint_ne_nil (WireMessage.encodeRaw a).length)
  have hraw : (WireMessage.encodeRaw m).length = 1 + ((encodeVarint (WireMessage.encodeRaw a).length).length +
      (WireMessage.encodeRaw a).length + (afterAccount m).length) := by
    rw [encodeRaw_some_account ha, bytesEncode]
    simp only [List.length_append, hkey]
    omega
  have hoffset : accountPlace (WireMessage.encodeRaw m).length m a [] = 1 := by
    simp only [accountPlace, List.length_append, List.length_nil]
    omega
  have hinside : ∀ part rest, part ++ rest <:+ WireMessage.encodeRaw a →
      1 < (WireMessage.encodeRaw m).length - (part ++ (rest ++ afterAccount m)).length := by
    intro part rest hsuffix
    have hle := hsuffix.length_le
    simp only [List.length_append] at hle ⊢
    omega
  constructor
  · simp only [limitedAccount, accountRead, hoffset]
  · intro hne
    have hlt := hinside _ _ (suffix_data hne)
    simp only [limitedAccount, accountRead, if_neg hne, Range.shift, place]
    omega
  · simp only [LimitedAccount.HasVersion, limitedAccount, accountRead, hoffset]
    split
    · rename_i hzero
      exact ⟨fun hlt => absurd hlt (by omega), fun hne => absurd hzero hne⟩
    · rename_i hne
      have hlt := hinside _ _ (suffix_writeVersion hne)
      rw [List.append_assoc]
      exact iff_of_true (by omega) hne
  · intro offset hmem
    simp only [limitedAccount, accountRead, Option.map_map] at hmem
    obtain ⟨signature, hsignature, rfl⟩ := Option.map_eq_some_iff.mp hmem
    have hsuffix : signature ++ [] <:+ WireMessage.encodeRaw a := by
      rw [List.append_nil]
      exact suffix_signature hsignature
    have hlt := hinside _ _ hsuffix
    rw [List.nil_append] at hlt
    simp only [Function.comp]
    omega

/-- What both parsers make of an account. -/
theorem accountTwins_parsed {hwf : AccountInfoWellFormed a} (ha : m.account = some a)
    (hstands : StandsAt data range.start (WireMessage.encodeRaw m)) :
    AccountTwins (limitedAccount data range t m a hwf)
      ⟨⟨a.pubkey, hwf.pubkey⟩, ⟨a.owner, hwf.owner⟩, a, m.slot, m.isStartup, m.bankId, t⟩ := by
  have hplaces : AccountPlaces data range t m a hwf := accountPlaces ha hwf
  constructor
  case data =>
    have hin : (accountRead (WireMessage.encodeRaw m).length
        (some (accountPlace (WireMessage.encodeRaw m).length m a [])) a hwf (afterAccount m)).data.In
          (WireMessage.encodeRaw m) := by
      simp only [accountRead]
      split
      · exact ⟨le_rfl, Nat.zero_le _⟩
      · rename_i hne
        have hsuffix := suffix_account ha (suffix_data hne)
        rw [List.append_assoc] at hsuffix
        exact place_in hsuffix
    exact (indexRange_eq (slice_shift hstands hin).1).trans
      (congrArg Except.ok (slice_accountRead ha hwf _ hstands))
  case txnSignature =>
    simp only [limitedAccount, accountRead]
    cases hsignature : a.txnSignature with
    | none => rfl
    | some signature =>
      have hstart := hstands.trans (StandsAt.of_suffix (suffix_account ha (suffix_signature hsignature)))
      simp only [Option.map_some, Option.mapM_some]
      have hat := indexRange_signature hstart (hwf.txnSignature signature hsignature)
      unfold signatureBytes at hat
      rw [hat]
      rfl
  case writeVersion =>
    refine indexVarint_eq ((varintAt_accountRead ha hwf _ hstands).trans (congrArg some ?_))
    unfold readWriteVersion
    by_cases hzero : a.writeVersion = 0
    · rw [if_pos hzero, if_neg fun hversion => hplaces.writeVersion.mp hversion hzero]
    · rw [if_neg hzero, if_pos (hplaces.writeVersion.mpr hzero)]
  case omitted => exact fun hnone => not_not.mp fun hne => hnone (hplaces.writeVersion.mpr hne)
  all_goals rfl

/-- The length of the nested account is not longer than the one of the update, which stands before it. -/
theorem movable_limitedAccount {hwf : AccountInfoWellFormed a} (ha : m.account = some a)
    (hversion : a.writeVersion ≠ 0) (hstands : StandsAt data range.start (WireMessage.encodeRaw m))
    (hfits : (WireMessage.encodeRaw m).length < 2 ^ 64)
    (hroom : encodedLenVarint (WireMessage.encodeRaw m).length ≤ range.start) :
    (limitedAccount data range t m a hwf).Movable := by
  have hplaces : AccountPlaces data range t m a hwf := accountPlaces ha hwf
  have hle : (WireMessage.encodeRaw a).length ≤ (WireMessage.encodeRaw m).length := by
    have hsuffix := (suffix_account ha (List.suffix_refl (WireMessage.encodeRaw a))).length_le
    rw [List.length_append] at hsuffix
    omega
  have hlen : StandsAt data (1 + range.start) (encodeVarint (WireMessage.encodeRaw a).length) := by
    refine hstands.trans ⟨encodeKey 1 .lengthDelimited, WireMessage.encodeRaw a ++ afterAccount m, ?_, rfl⟩
    rw [encodeRaw_some_account ha, bytesEncode]
    simp only [List.append_assoc]
  refine ⟨hplaces.writeVersion.mpr hversion, ?_⟩
  intro size msgSizeCurrent value wvSizeCurrent hsize _ writeVersion place hmem hstart
  rw [hplaces.accountOffset] at hsize hstart
  have hread := readVarint_eq hlen (IsVarint.encode (hle.trans_lt hfits))
  obtain ⟨rfl, rfl⟩ := Prod.mk.inj (Except.ok.inj (hread.symm.trans hsize))
  rcases List.mem_cons.mp hmem with rfl | hmem
  · by_cases hnil : a.data = []
    · -- there are no data
      have hdata : (limitedAccount data range t m a hwf).data = ⟨range.start, range.start⟩ := by
        simp only [limitedAccount, accountRead, if_pos hnil, Range.shift, Range.default, Nat.zero_add]
      have hmono := encodedLenVarint_mono hle hfits
      rw [hdata]
      refine ⟨?_, ?_⟩
      · rw [length_encodeVarint (hle.trans_lt hfits)]
        dsimp only
        omega
      · simp only [slice, Nat.sub_self, List.take_zero]
    · have hlt := hplaces.dataStart hnil
      omega
  · obtain ⟨offset, hoffset, rfl⟩ := List.mem_map.mp hmem
    have hlt := hplaces.signature offset (Option.mem_toList.mp hoffset)
    dsimp only at hstart
    omega

end

/-! ### Updates of the write version -/

section

variable {msg msg' : LimitedAccount} {writeVersion : UInt64}

theorem encodedLenVarint_pos (n : ℕ) : 0 < encodedLenVarint n := by
  unfold encodedLenVarint
  omega

/-- An update leaves the write version in the nested account. -/
theorem hasVersion_of_update (h : msg.updateWriteVersion writeVersion = .ok msg') : msg'.HasVersion := by
  obtain ⟨⟨_, wvSizeCurrent⟩, -, h⟩ := bind_eq_ok.mp h
  obtain ⟨⟨size, msgSizeCurrent⟩, -, h⟩ := bind_eq_ok.mp h
  obtain ⟨size', -, h⟩ := bind_eq_ok.mp h
  obtain ⟨stop, -, h⟩ := bind_eq_ok.mp h
  obtain ⟨newEnd, -, h⟩ := bind_eq_ok.mp h
  obtain ⟨count, hcount, h⟩ := bind_eq_ok.mp h
  obtain ⟨buffer₁, -, h⟩ := bind_eq_ok.mp h
  obtain ⟨writeVersionNew, hnew, h⟩ := bind_eq_ok.mp h
  obtain ⟨count', -, h⟩ := bind_eq_ok.mp h
  obtain ⟨buffer₂, -, h⟩ := bind_eq_ok.mp h
  obtain ⟨buffer₃, -, h⟩ := bind_eq_ok.mp h
  obtain ⟨buffer₄, -, h⟩ := bind_eq_ok.mp h
  obtain ⟨data, -, h⟩ := bind_eq_ok.mp h
  obtain ⟨signature, -, h⟩ := bind_eq_ok.mp h
  obtain rfl := Except.ok.inj h
  have hpos := encodedLenVarint_pos size'
  have hle := (subtract_eq_ok hcount).1
  obtain ⟨-, rfl⟩ := subtract_eq_ok hnew
  dsimp only at hle
  simp only [LimitedAccount.HasVersion]
  omega

/-- After some updates there is a write version, and there was one before. -/
theorem limited_run {size : ℕ} {me : SizedAccount} : ∀ {writeVersions : List UInt64} {msg : LimitedAccount},
    SizedAccount.updateWriteVersions ⟨.limited msg, size⟩ writeVersions = .ok me →
      ∃ msg', me = ⟨.limited msg', size⟩ ∧ (writeVersions = [] ∧ msg' = msg ∨ msg.HasVersion ∧ msg'.HasVersion) := by
  intro writeVersions
  induction writeVersions with
  | nil =>
    intro msg h
    obtain rfl := Except.ok.inj h
    exact ⟨msg, rfl, .inl ⟨rfl, rfl⟩⟩
  | cons writeVersion writeVersions ih =>
    intro msg h
    rw [SizedAccount.updateWriteVersions, List.foldlM_cons] at h
    obtain ⟨me₁, hstep, hrest⟩ := bind_eq_ok.mp h
    obtain ⟨msg₁, hupdate, hme⟩ := bind_eq_ok.mp hstep
    obtain rfl := Except.ok.inj hme
    have hbefore : msg.HasVersion := lt_of_update hupdate
    obtain ⟨msg', rfl, ⟨-, rfl⟩ | ⟨-, hafter⟩⟩ := ih hrest
    · exact ⟨_, rfl, .inr ⟨hbefore, hasVersion_of_update hupdate⟩⟩
    · exact ⟨_, rfl, .inr ⟨hbefore, hafter⟩⟩

theorem indexRange_eq_ok {buffer bytes : Bytes} {range : Range} (h : indexRange buffer range = .ok bytes) :
    slice buffer range = bytes := by
  unfold indexRange at h
  split at h
  · exact Except.ok.inj h
  · cases h

theorem varintAt_of_indexVarint {buffer : Bytes} {offset : ℕ} {value : UInt64}
    (h : indexVarint buffer offset = .ok value) : varintAt buffer offset = some value := by
  unfold indexVarint at h
  split at h
  · cases hvarint : varintAt buffer offset with
    | none =>
      rw [hvarint] at h
      cases h
    | some value' =>
      rw [hvarint] at h
      exact congrArg some (Except.ok.inj h)
  · cases h

/-- The signature of an account, where it can be read. -/
theorem mapM_indexRange_eq_ok {buffer : Bytes} {offset : Option ℕ} {signature : Option Bytes} :
    (offset.mapM fun offset => indexRange buffer ⟨offset, offset + 64⟩) = .ok signature ↔
      (∀ place ∈ offset, Succeeds (indexRange buffer ⟨place, place + 64⟩)) ∧
        (offset.map fun offset => slice buffer ⟨offset, offset + 64⟩) = signature := by
  cases offset with
  | none => simp [pure, Except.pure]
  | some offset =>
    simp only [Option.mapM_some, Option.mem_some_iff, forall_eq', Option.map_some]
    constructor
    · intro h
      obtain ⟨bytes, hbytes, hsignature⟩ := bind_eq_ok.mp h
      rw [indexRange_eq_ok hbytes]
      exact ⟨⟨bytes, hbytes⟩, Except.ok.inj hsignature⟩
    · rintro ⟨⟨bytes, hbytes⟩, rfl⟩
      rw [hbytes, indexRange_eq_ok hbytes]
      rfl

/-- Another write version is in both messages. -/
theorem AccountTwins.updated {msg msg₁ : LimitedAccount} {msg' : ProstAccount} {writeVersion : Option UInt64}
    (h : AccountTwins msg msg') (hversion : msg.HasVersion) (hversion₁ : msg₁.HasVersion)
    (hsame : SameBut (.limited msg) (.limited msg₁) writeVersion) :
    AccountTwins msg₁ (msg'.withVersion (writeVersion.getD msg'.account.writeVersion)) := by
  have hview := hsame.view
  obtain ⟨hdata, hvarint, hsignature⟩ := hsame.readable
  have hvarint₀ : varintAt msg.buffer msg.writeVersion = some msg'.account.writeVersion := by
    have hindex := h.writeVersion
    rw [if_pos hversion] at hindex
    exact varintAt_of_indexVarint hindex
  constructor
  case createdAt => exact (MessageBlockCreatedAt.limited.inj hsame.createdAt).trans h.createdAt
  case slot => exact (congrArg AccountView.slot hview).trans h.slot
  case isStartup => exact Eq.trans hsame.isStartup h.isStartup
  case bankId => exact (congrArg AccountView.bankId hview).trans h.bankId
  case pubkey => exact (congrArg AccountView.pubkey hview).trans h.pubkey
  case owner => exact (congrArg AccountView.owner hview).trans h.owner
  case pubkeyBytes => exact (congrArg (·.pubkey.val) hview).trans h.pubkeyBytes
  case ownerBytes => exact (congrArg (·.owner.val) hview).trans h.ownerBytes
  case lamports => exact (congrArg AccountView.lamports hview).trans h.lamports
  case executable => exact (congrArg AccountView.executable hview).trans h.executable
  case rentEpoch => exact (congrArg AccountView.rentEpoch hview).trans h.rentEpoch
  case data =>
    obtain ⟨data, hdata⟩ := hdata
    refine hdata.trans (congrArg Except.ok ?_)
    exact (indexRange_eq_ok hdata).symm.trans ((congrArg AccountView.data hview).trans (indexRange_eq_ok h.data))
  case txnSignature =>
    refine mapM_indexRange_eq_ok.mpr ⟨hsignature, ?_⟩
    exact (congrArg AccountView.txnSignature hview).trans (mapM_indexRange_eq_ok.mp h.txnSignature).2
  case writeVersion =>
    rw [if_pos hversion₁]
    refine indexVarint_eq ((congrArg AccountView.writeVersion hview).trans ?_)
    have hor : writeVersion.or (varintAt msg.buffer msg.writeVersion) =
        some (writeVersion.getD msg'.account.writeVersion) := by
      rw [hvarint₀]
      cases writeVersion <;> rfl
    exact hor
  case omitted => exact fun hnone => absurd hversion₁ hnone

end

section

variable {u : SubscribeUpdate} {v : UpdateOneof} {t : Proto.Timestamp} {gen : Generated} {msg msg' : Filter.Message}

/-- The two messages of an account that both parsers accept. -/
theorem account_of_accept {m : SubscribeUpdateAccount} (h : BothAccept gen u msg msg')
    (hv : u.updateOneof = some (.account m))
    (hlimited : parseUpdate gen (WireMessage.encodeRaw u) t ⟨.account, updateRange u (.account m)⟩ = .ok msg)
    (hprost : MessageParserProst.parseAccount t m = .ok msg') : ∃ a, ∃ hwf : AccountInfoWellFormed a,
      m.account = some a ∧ msg = .account (.limited
          (limitedAccount (WireMessage.encodeRaw u) (updateRange u (.account m)) t m a hwf)) ∧
        msg' = .account (.prost
          ⟨⟨a.pubkey, hwf.pubkey⟩, ⟨a.owner, hwf.owner⟩, a, m.slot, m.isStartup, m.bankId, t⟩) := by
  have hfits : (WireMessage.encodeRaw m).length < 2 ^ 64 := length_body_lt hv h.lt
  have hbody : slice (WireMessage.encodeRaw u) (updateRange u (.account m)) = WireMessage.encodeRaw m := slice_update hv
  cases ha : m.account with
  | none =>
    rw [MessageParserProst.parseAccount, ha] at hprost
    cases hprost
  | some a =>
    obtain ⟨read, account, hdecode, -, -, -⟩ := parseAccount_eq_ok hlimited
    rw [hbody] at hdecode
    obtain ⟨hwf, rfl⟩ := accountInfo_of_accepted ha hfits hdecode hprost
    have hparse := limited_parseAccount (t := t) ha hwf hfits hbody
    exact ⟨a, hwf, rfl, (Except.ok.inj (hparse.symm.trans hlimited)).symm, rfl⟩

/-- The length of the nested message stands before it. -/
theorem encodedLenVarint_le_updateRange (hv : u.updateOneof = some v)
    (hfits : (WireMessage.encodeRaw u).length < 2 ^ 64) :
    encodedLenVarint (bodyOf v).length ≤ (updateRange u v).start := by
  have hraw : WireMessage.encodeRaw u =
      Lib.Protobuf.repeated string.encode 1 u.filters ++ v.encode ++ afterUpdate u := by
    simp only [WireMessage.encodeRaw, hv]
    rfl
  have hlen := length_encodeVarint (length_body_lt hv hfits)
  rw [updateRange, place, hraw, encode_eq, bytesEncode]
  simp only [List.length_append]
  omega

/-- The two messages of an account in a block: they were parsed from one update, and have got the same write versions
since. -/
def UpdatedAlike (gen : Generated) (msg msg' : MessageAccount) : Prop :=
  ∃ u parsed parsed' writeVersions me me', BothAccept gen u (.account parsed) (.account parsed') ∧
    (SizedAccount.ofParsed (WireMessage.encodeRaw u) parsed).updateWriteVersions writeVersions = .ok me ∧
    (SizedAccount.ofParsed (WireMessage.encodeRaw u) parsed').updateWriteVersions writeVersions = .ok me' ∧
    msg = me.msg ∧ msg' = me'.msg

/-- The run of a message of prost that is as it was parsed. -/
theorem prost_run_parsed {data : Bytes} {parsed : ProstAccount} {writeVersions : List UInt64} {me : SizedAccount}
    (h : (SizedAccount.ofParsed data (.prost parsed)).updateWriteVersions writeVersions = .ok me) :
    me.msg = .prost (parsed.withVersion (writeVersions.getLast?.getD parsed.account.writeVersion)) := by
  obtain ⟨rest, hrest⟩ : ∃ rest, pubkeyBytes + pubkeyBytes + data.length + 20 =
      rest + encodedLenVarint parsed.account.writeVersion.toNat := by
    have hle := encodedLenVarint_le parsed.account.writeVersion
    exact ⟨pubkeyBytes + pubkeyBytes + data.length + 20 - encodedLenVarint parsed.account.writeVersion.toNat, by omega⟩
  have hrun := prost_run rest writeVersions parsed
  rw [← hrest] at hrun
  rw [Except.ok.inj (h.symm.trans hrun)]

theorem UpdatedAlike.twins {msg msg' : MessageAccount} (h : UpdatedAlike gen msg msg') :
    ∃ account account', msg = .limited account ∧ msg' = .prost account' ∧ AccountTwins account account' := by
  obtain ⟨u, parsed, parsed', writeVersions, me, me', haccept, hrun, hrun', rfl, rfl⟩ := h
  obtain ⟨v, t, hv, ht, hlimited, hprost⟩ := haccept.parseUpdate
  have hkind := kind_of_account hlimited
  cases v with
  | account m =>
    obtain ⟨a, hwf, ha, hparsed, hparsed'⟩ := account_of_accept haccept hv hlimited hprost
    obtain rfl := Message.account.inj hparsed
    obtain rfl := Message.account.inj hparsed'
    have hstands : StandsAt (WireMessage.encodeRaw u) (updateRange u (.account m)).start (WireMessage.encodeRaw m) :=
      standsAt_update hv
    have htwins : AccountTwins (limitedAccount (WireMessage.encodeRaw u) (updateRange u (.account m)) t m a hwf)
        ⟨⟨a.pubkey, hwf.pubkey⟩, ⟨a.owner, hwf.owner⟩, a, m.slot, m.isStartup, m.bankId, t⟩ :=
      accountTwins_parsed ha hstands
    rw [prost_run_parsed hrun']
    obtain ⟨account, rfl, ⟨rfl, rfl⟩ | ⟨hbefore, hafter⟩⟩ := limited_run hrun
    · exact ⟨_, _, rfl, rfl, htwins⟩
    · have hfits : (WireMessage.encodeRaw m).length < 2 ^ 64 := length_body_lt hv haccept.lt
      have hroom : encodedLenVarint (bodyOf (.account m)).length ≤ (updateRange u (.account m)).start :=
        encodedLenVarint_le_updateRange hv haccept.lt
      have hplaces : AccountPlaces (WireMessage.encodeRaw u) (updateRange u (.account m)) t m a hwf :=
        accountPlaces ha hwf
      have hmovable : (limitedAccount (WireMessage.encodeRaw u) (updateRange u (.account m)) t m a hwf).Movable :=
        movable_limitedAccount ha (hplaces.writeVersion.mp hbefore) hstands hfits hroom
      have hlens := (limited_isLens_iff haccept.limited haccept.fits).mpr hmovable
      obtain ⟨me, hrun₁, hsame, -⟩ := hlens writeVersions
      obtain rfl := Except.ok.inj (hrun.symm.trans hrun₁)
      exact ⟨_, _, rfl, rfl, htwins.updated hbefore hafter hsame⟩
  | _ => cases hkind

end

/-! ### Transactions -/

section

variable {α : Type} [WireMessage α] {f : α → α}

theorem encode_congr (hlen : ∀ msg : α, WireMessage.encodedLen msg = (WireMessage.encodeRaw msg).length)
    (h : ∀ msg, WireMessage.encodeRaw (f msg) = WireMessage.encodeRaw msg) (msg : α) (tag : ℕ) :
    message.encode tag (f msg) = message.encode tag msg := by
  rw [message.encode, message.encode, hlen, hlen, h]

theorem optional_map_congr (h : ∀ msg tag, message.encode tag (f msg) = message.encode tag msg) (tag : ℕ)
    (msg : Option α) : Lib.Protobuf.optional message.encode tag (msg.map f) =
      Lib.Protobuf.optional message.encode tag msg := by
  cases msg with
  | none => rfl
  | some msg => exact h msg tag

theorem repeated_map_congr (h : ∀ msg tag, message.encode tag (f msg) = message.encode tag msg) (tag : ℕ)
    (msgs : List α) : Lib.Protobuf.repeated message.encode tag (msgs.map f) =
      Lib.Protobuf.repeated message.encode tag msgs := by
  unfold Lib.Protobuf.repeated
  rw [List.flatMap_map]
  exact List.flatMap_congr fun msg _ => h msg tag

end

/-! A zero is not written, with or without its sign. -/

theorem encodeRaw_readBack_amount (m : UiTokenAmount) : WireMessage.encodeRaw m.readBack = WireMessage.encodeRaw m := by
  unfold UiTokenAmount.readBack
  split
  · rename_i hzero
    simp only [WireMessage.encodeRaw, hzero, if_true]
    rfl
  · rfl

theorem encodeRaw_readBack_balance (m : TokenBalance) : WireMessage.encodeRaw m.readBack = WireMessage.encodeRaw m := by
  simp only [TokenBalance.readBack, WireMessage.encodeRaw]
  rw [optional_map_congr (encode_congr (fun _ => rfl) encodeRaw_readBack_amount)]

theorem encodeRaw_readBack_meta (m : TransactionStatusMeta) :
    WireMessage.encodeRaw m.readBack = WireMessage.encodeRaw m := by
  have hbalance : ∀ (balance : TokenBalance) tag, message.encode tag balance.readBack = message.encode tag balance :=
    encode_congr (fun _ => rfl) encodeRaw_readBack_balance
  simp only [TransactionStatusMeta.readBack, WireMessage.encodeRaw]
  rw [repeated_map_congr hbalance, repeated_map_congr hbalance]

theorem encodeRaw_readBack_info (m : SubscribeUpdateTransactionInfo) :
    WireMessage.encodeRaw m.readBack = WireMessage.encodeRaw m := by
  simp only [SubscribeUpdateTransactionInfo.readBack, WireMessage.encodeRaw]
  rw [optional_map_congr (encode_congr (fun _ => rfl) encodeRaw_readBack_meta)]

section

variable {u : SubscribeUpdate} {t : Proto.Timestamp} {gen : Generated} {msg msg' : Filter.Message}
  {m : SubscribeUpdateTransaction} {info : SubscribeUpdateTransactionInfo} {tx : Proto.Transaction}
  {statusMeta : TransactionStatusMeta}

/-- What the limited decoder reads of a transaction that both parsers accept. -/
theorem limitedDecode_info {read : UpdateOneofLimitedDecodeTransactionInfo}
    (h : TransactionParts info tx statusMeta) (hfits : (WireMessage.encodeRaw info).length < 2 ^ 64)
    (hread : limitedDecode UpdateOneofLimitedDecodeTransactionInfo.mergeField .default (WireMessage.encodeRaw info) =
      .ok read) : ∃ offset, read =
        { signatureOffset := offset
          isVote := info.isVote
          index := info.index
          accountKeys := keysOf tx statusMeta
          err := statusMeta.err.map fun err => place (WireMessage.encodeRaw info).length (WireMessage.encodeRaw err)
            (afterErr statusMeta ++ plain uint64.encode 0 5 info.index) } ∧
        ∀ start ∈ offset, StandsAt (WireMessage.encodeRaw info) start info.signature ∧ info.signature.length = 64 := by
  rcases length_signature hfits hread with hnil | hlen
  · have hraw : WireMessage.encodeRaw info = afterSignature info := by
      rw [encodeRaw_transactionInfo, plain, if_pos hnil, List.nil_append]
    have hreads := reads_afterSignature (WireMessage.encodeRaw info).length h none []
    rw [← hraw, List.append_nil] at hreads
    refine ⟨none, Except.ok.inj (hread.symm.trans (hreads.mergeAll_eq hfits)), ?_⟩
    intro start hmem
    cases hmem
  · have hwf : TransactionWellFormed info tx statusMeta :=
      ⟨hlen, h.transaction, h.statusMeta, h.accountKeys, h.writable, h.readonly⟩
    refine ⟨_, Except.ok.inj (hread.symm.trans (limitedDecode_transactionInfo hwf hfits)), ?_⟩
    intro start hmem
    obtain rfl := Option.some.inj hmem
    exact ⟨.of_suffix (suffix_infoSignature hwf), hlen⟩

/-- The two messages of a transaction that both parsers accept. -/
theorem transaction_of_accept (h : BothAccept gen u msg msg') (hv : u.updateOneof = some (.transaction m))
    (hlimited : parseUpdate gen (WireMessage.encodeRaw u) t ⟨.transaction, updateRange u (.transaction m)⟩ = .ok msg)
    (hprost : MessageParserProst.parseTransaction t { m with transaction := m.transaction.map (·.readBack) } =
      .ok msg') : ∃ tx tx', msg = .transaction (.limited tx) ∧ msg' = .transaction (.prost tx') ∧
        TransactionTwins tx tx' := by
  have hfits : (WireMessage.encodeRaw m).length < 2 ^ 64 := length_body_lt hv h.lt
  have hbody : slice (WireMessage.encodeRaw u) (updateRange u (.transaction m)) = WireMessage.encodeRaw m :=
    slice_update hv
  have hstands : StandsAt (WireMessage.encodeRaw u) (updateRange u (.transaction m)).start (WireMessage.encodeRaw m) :=
    standsAt_update hv
  have hbytes : indexRange (WireMessage.encodeRaw u) (updateRange u (.transaction m)) = .ok (WireMessage.encodeRaw m) :=
    indexRange_update hv
  cases hm : m.transaction with
  | none =>
    rw [hm] at hprost
    cases hprost
  | some info =>
    rw [hm] at hprost
    obtain ⟨created, hcreate, hmsg⟩ := bind_eq_ok.mp hprost
    obtain ⟨tx, statusMeta, hparts, rfl⟩ := transactionParts_of_accepted hcreate
    obtain ⟨message, transaction, read, error, hdecode, htransaction, hread, -⟩ := parseTransaction_eq_ok hlimited
    rw [hbody, limitedDecode_transaction hfits, hm] at hdecode
    obtain rfl := Except.ok.inj hdecode
    obtain rfl := Option.some.inj htransaction
    have hsuffix := suffix_transaction hm
    obtain ⟨hin, hslice⟩ := slice_shift hstands (place_in hsuffix)
    rw [slice_place hsuffix] at hslice
    rw [hslice] at hread
    obtain ⟨offset, rfl, hoffset⟩ := limitedDecode_info hparts (length_info_lt hm hfits) hread
    have hparse := limited_parseTransaction_of_decode (t := t) hm hparts hread hfits
      (fun err => h.reads.transactionError m info statusMeta err hv hm hparts.statusMeta) hbody hstands
    obtain rfl := Except.ok.inj (hlimited.symm.trans hparse)
    refine ⟨_, _, rfl, (Except.ok.inj hmsg).symm, ?_⟩
    have hraw : WireMessage.encodeRaw (⟨some info.readBack, m.slot, m.bankId⟩ : SubscribeUpdateTransaction) =
        WireMessage.encodeRaw m := by
      have hinfo := encode_congr (fun _ => rfl) encodeRaw_readBack_info info 1
      simp only [WireMessage.encodeRaw, hm, Lib.Protobuf.optional, Option.elim_some, hinfo]
    constructor
    case bytes => exact hbytes.trans (congrArg Except.ok hraw.symm)
    case info =>
      refine (indexRange_eq hin).trans (congrArg Except.ok ?_)
      exact hslice.trans (encodeRaw_readBack_info info).symm
    case signature =>
      intro place' hplace
      obtain ⟨start, hstart, rfl⟩ := Option.map_eq_some_iff.mp hplace
      obtain ⟨hsignature, hlen⟩ := hoffset start hstart
      have hat := (hstands.trans (standsAt_place hsuffix)).trans hsignature
      rw [Nat.add_comm] at hat
      exact indexRange_signature hat hlen
    all_goals rfl

end

/-! ### All kinds -/

/-- A message of each parser. -/
inductive Paired {α β γ : Type} (limited : α → γ) (prost : β → γ) (R : α → β → Prop) : γ → γ → Prop
  | intro {msg : α} {msg' : β} (h : R msg msg') : Paired limited prost R (limited msg) (prost msg')

theorem Paired.exists {α β γ : Type} {limited : α → γ} {prost : β → γ} {R : α → β → Prop} {a b : γ}
    (h : Paired limited prost R a b) : ∃ msg msg', a = limited msg ∧ b = prost msg' ∧ R msg msg' := by
  cases h with
  | intro h => exact ⟨_, _, rfl, rfl, h⟩

/-- The parts of two blocks. -/
structure BlockTwins (block block' : MessageBlock) : Prop where
  createdAt : ∃ t, block.createdAt = .limited t ∧ block'.createdAt = .prost t
  accounts : List.Forall₂ (Paired .limited .prost AccountTwins) block.accounts block'.accounts
  transactions : List.Forall₂ (Paired .limited .prost TransactionTwins) block.transactions block'.transactions
  entries : List.Forall₂ (Paired .limited .prost EntryTwins) block.entries block'.entries
  blockMeta : Paired .limited .prost BlockMetaTwins block.blockMeta block'.blockMeta

inductive Twins : Filter.Message → Filter.Message → Prop
  | slot {msg msg'} (h : Paired .limited .prost SlotTwins msg msg') : Twins (.slot msg) (.slot msg')
  | account {msg msg'} (h : AccountTwins msg msg')
      (bytes : indexRange msg.buffer msg.range = .ok (WireMessage.encodeRaw
        (⟨some msg'.account, msg'.slot, msg'.isStartup, msg'.bankId⟩ : SubscribeUpdateAccount))) :
      Twins (.account (.limited msg)) (.account (.prost msg'))
  | transaction {msg msg'} (h : Paired .limited .prost TransactionTwins msg msg') :
      Twins (.transaction msg) (.transaction msg')
  | entry {msg msg'} (h : Paired .limited .prost EntryTwins msg msg') : Twins (.entry msg) (.entry msg')
  | blockMeta {msg msg'} (h : Paired .limited .prost BlockMetaTwins msg msg') :
      Twins (.blockMeta msg) (.blockMeta msg')
  | block {block block'} (h : BlockTwins block block') : Twins (.block block) (.block block')
  | blockFooter (footer : SubscribeUpdateBlockFooter) (t : Proto.Timestamp) :
      Twins (.blockFooter ⟨footer, .limited t⟩) (.blockFooter ⟨footer, .prost t⟩)
  | entryUpdateParent (update : SubscribeUpdateEntryUpdateParent) (t : Proto.Timestamp) :
      Twins (.entryUpdateParent ⟨update, .limited t⟩) (.entryUpdateParent ⟨update, .prost t⟩)

section

variable {u : SubscribeUpdate} {t : Proto.Timestamp} {gen : Generated} {msg msg' : Filter.Message}

theorem slot_of_accept {m : SubscribeUpdateSlot} (h : BothAccept gen u msg msg')
    (hv : u.updateOneof = some (.slot m))
    (hlimited : parseUpdate gen (WireMessage.encodeRaw u) t ⟨.slot, updateRange u (.slot m)⟩ = .ok msg)
    (hprost : MessageParserProst.parseSlot t m = .ok msg') : Twins msg msg' := by
  have hbody : slice (WireMessage.encodeRaw u) (updateRange u (.slot m)) = WireMessage.encodeRaw m := slice_update hv
  have hbytes : indexRange (WireMessage.encodeRaw u) (updateRange u (.slot m)) = .ok (WireMessage.encodeRaw m) :=
    indexRange_update hv
  rw [parseUpdate, parseSlot, hbody, limitedDecode_slot (length_body_lt hv h.lt)] at hlimited
  cases hstatus : slotStatusTryFrom m.status with
  | none =>
    rw [MessageParserProst.parseSlot, hstatus] at hprost
    cases hprost
  | some status =>
    rw [MessageParserProst.parseSlot, hstatus] at hprost
    simp only [ofDecode_ok, ok_bind, hstatus] at hlimited
    obtain rfl := Except.ok.inj hlimited
    obtain rfl := Except.ok.inj hprost
    refine .slot (.intro ⟨rfl, rfl, ?_⟩)
    simp only [slotStatusToI32_tryFrom hstatus]
    exact hbytes

theorem entry_of_accept {m : SubscribeUpdateEntry} (h : BothAccept gen u msg msg')
    (hv : u.updateOneof = some (.entry m))
    (hlimited : parseUpdate gen (WireMessage.encodeRaw u) t ⟨.entry, updateRange u (.entry m)⟩ = .ok msg)
    (hprost : Except.ok (.entry (.prost ⟨m, t⟩)) = (.ok msg' : Except MessageParseError Filter.Message)) :
    Twins msg msg' := by
  rw [parseUpdate, limited_parseEntry (length_body_lt hv h.lt) (slice_update hv)] at hlimited
  obtain rfl := Except.ok.inj hlimited
  obtain rfl := Except.ok.inj hprost
  exact .entry (.intro ⟨rfl, indexRange_update hv⟩)

theorem blockMeta_of_accept {m : SubscribeUpdateBlockMeta} (h : BothAccept gen u msg msg')
    (hv : u.updateOneof = some (.blockMeta m))
    (hlimited : parseUpdate gen (WireMessage.encodeRaw u) t ⟨.blockMeta, updateRange u (.blockMeta m)⟩ = .ok msg)
    (hprost : MessageParserProst.parseUpdate t (.blockMeta m) = .ok msg') : Twins msg msg' := by
  obtain ⟨created, hcreate, hmsg⟩ := bind_eq_ok.mp hprost
  rw [parseUpdate, limited_parseBlockMeta (h.reads.blockMeta m hv) (slice_update hv)] at hlimited
  unfold MessageParserProst.createBlockMeta at hcreate
  cases hheight : m.blockHeight with
  | none =>
    rw [hheight] at hcreate
    cases hcreate
  | some height =>
    rw [hheight] at hcreate hlimited
    obtain rfl := Except.ok.inj hcreate
    obtain rfl := Except.ok.inj hlimited
    obtain rfl := Except.ok.inj hmsg
    exact .blockMeta (.intro ⟨rfl, rfl, indexRange_update hv⟩)

/-- What both parsers accept. -/
theorem twins_of_accept (h : BothAccept gen u msg msg') : Twins msg msg' := by
  obtain ⟨v, t, hv, ht, hlimited, hprost⟩ := h.parseUpdate
  cases v with
  | slot m => exact slot_of_accept h hv hlimited hprost
  | account m =>
    obtain ⟨a, hwf, ha, rfl, rfl⟩ := account_of_accept h hv hlimited hprost
    refine .account (accountTwins_parsed ha (standsAt_update hv)) ?_
    rw [← ha]
    exact indexRange_update hv
  | transaction m =>
    obtain ⟨tx, tx', rfl, rfl, htwins⟩ := transaction_of_accept h hv hlimited hprost
    exact .transaction (.intro htwins)
  | entry m => exact entry_of_accept h hv hlimited hprost
  | blockMeta m => exact blockMeta_of_accept h hv hlimited hprost
  | blockFooter m =>
    have hbody : slice (WireMessage.encodeRaw u) (updateRange u (.blockFooter m)) = WireMessage.encodeRaw m :=
      slice_update hv
    simp only [kindOf, parseUpdate, hbody, h.reads.blockFooter m hv] at hlimited
    obtain rfl := Except.ok.inj hlimited
    obtain rfl := Except.ok.inj hprost
    exact .blockFooter m t
  | entryUpdateParent m =>
    have hbody : slice (WireMessage.encodeRaw u) (updateRange u (.entryUpdateParent m)) = WireMessage.encodeRaw m :=
      slice_update hv
    simp only [kindOf, parseUpdate, hbody, h.reads.entryUpdateParent m hv] at hlimited
    obtain rfl := Except.ok.inj hlimited
    obtain rfl := Except.ok.inj hprost
    exact .entryUpdateParent m t
  | block | transactionStatus | ping | pong => cases hlimited

end

/-! ### Blocks -/

section

variable {gen : Generated}

/-- A message of each parser, which both have parsed from one update. -/
def PartAlike {α : Type} (gen : Generated) (message : α → Filter.Message) (msg msg' : α) : Prop :=
  ∃ u, BothAccept gen u (message msg) (message msg')

/-- Two blocks that are built from the messages of the same updates. -/
structure BlockAlike (gen : Generated) (block block' : MessageBlock) : Prop where
  createdAt : ∃ t, block.createdAt = .limited t ∧ block'.createdAt = .prost t
  accounts : List.Forall₂ (UpdatedAlike gen) block.accounts block'.accounts
  transactions : List.Forall₂ (PartAlike gen .transaction) block.transactions block'.transactions
  entries : List.Forall₂ (PartAlike gen .entry) block.entries block'.entries
  blockMeta : PartAlike gen .blockMeta block.blockMeta block'.blockMeta

/-- The messages of the parsers for one update, or the blocks of such messages. -/
inductive MadeAlike (gen : Generated) : Filter.Message → Filter.Message → Prop
  | parsed {u : SubscribeUpdate} {msg msg' : Filter.Message} (h : BothAccept gen u msg msg') : MadeAlike gen msg msg'
  | block {block block' : MessageBlock} (h : BlockAlike gen block block') : MadeAlike gen (.block block) (.block block')

theorem BlockAlike.twins {block block' : MessageBlock} (h : BlockAlike gen block block') :
    BlockTwins block block' := by
  constructor
  case createdAt => exact h.createdAt
  case accounts =>
    refine h.accounts.imp fun msg msg' halike => ?_
    obtain ⟨account, account', rfl, rfl, htwins⟩ := halike.twins
    exact .intro htwins
  case transactions =>
    refine h.transactions.imp fun msg msg' halike => ?_
    obtain ⟨u, haccept⟩ := halike
    cases twins_of_accept haccept with
    | transaction h => exact h
  case entries =>
    refine h.entries.imp fun msg msg' halike => ?_
    obtain ⟨u, haccept⟩ := halike
    cases twins_of_accept haccept with
    | entry h => exact h
  case blockMeta =>
    obtain ⟨u, haccept⟩ := h.blockMeta
    cases twins_of_accept haccept with
    | blockMeta h => exact h

theorem MadeAlike.twins {msg msg' : Filter.Message} (h : MadeAlike gen msg msg') : Twins msg msg' := by
  cases h with
  | parsed h => exact twins_of_accept h
  | block h => exact .block h.twins

end

end Richat.Filter
