import Richat.Filter.Twins

/-!
# What the clients of both parsers read

The encoder writes a limited message from its buffer, and the one of prost from its fields. `decodesAlike_iff` says
for every kind of update when a client reads the same of both: an account that is sliced loses `is_startup`, a write
version that was left out is read as another one where an account is put together again, and a transaction status
needs a signature.
-/

namespace Richat.Filter

open Lib Lib.Protobuf Proto

/-! ### What a client reads -/

/-- An account update whose `is_startup` is written although it is false. -/
structure StartupWritten where
  update : SubscribeUpdateAccount

instance : WireMessage StartupWritten := .ofEncodeRaw fun m =>
  Lib.Protobuf.optional message.encode 1 m.update.account ++ plain uint64.encode 0 2 m.update.slot ++
    bool.encode 3 false ++ Lib.Protobuf.optional uint64.encode 4 m.update.bankId

/-- The bytes of an update around those of its nested message. -/
def encodeAround (w : SubscribeUpdate) (update : Bytes) : Bytes :=
  Lib.Protobuf.repeated string.encode 1 w.filters ++ update ++ Lib.Protobuf.optional message.encode 11 w.createdAt

/-- The generated decoder reads what is written for an update, also if a default is written. -/
structure Generated.ReadsSent (gen : Generated) (w : SubscribeUpdate) : Prop where
  subscribeUpdate : gen.subscribeUpdate (WireMessage.encodeRaw w) = .ok w.readBack
  startup : ∀ m, w.updateOneof = some (.account m) → m.isStartup = false →
    gen.subscribeUpdate (encodeAround w (message.encode 2 (StartupWritten.mk m))) = .ok w.readBack

/-- The client reads the same update from the bytes of both. -/
def DecodesAlike (gen : Generated) (update update' : FilteredUpdate) : Prop :=
  ∃ out out' w, update.encodeToVec = .ok out ∧ update'.encodeToVec = .ok out' ∧
    gen.subscribeUpdate out = .ok w ∧ gen.subscribeUpdate out' = .ok w

/-! ### What the limited encoders write -/

theorem utf8_eq_nil {value : String} : utf8 value = [] ↔ value = "" := by
  constructor
  · intro h
    have hsize : value.utf8ByteSize = 0 := by
      have hlen := congrArg List.length h
      simpa [utf8] using hlen
    exact String.utf8ByteSize_eq_zero_iff.mp hsize
  · rintro rfl
    rfl

theorem writes_text {tag : ℕ} (htag : tag < 2 ^ 29) (value : String) :
    Writes (if ¬ (utf8 value).isEmpty then bytesEncode tag (utf8 value) else [])
      (if ¬ (utf8 value).isEmpty then bytesEncodedLen tag (utf8 value) else 0)
      (plain string.encode "" tag value) :=
  .plain (by rw [List.isEmpty_iff, utf8_eq_nil]) (.bytes htag _)

/-- A message that is written by prost in both. -/
theorem writes_generated {α : Type} [WireMessage α] {tag : ℕ} (htag : tag < 2 ^ 29)
    (hlen : ∀ msg : α, WireMessage.encodedLen msg = (WireMessage.encodeRaw msg).length) (msg : Option α) :
    Writes (msg.elim [] (message.encode tag)) (msg.elim 0 (message.encodedLen tag))
      (Lib.Protobuf.optional message.encode tag msg) :=
  .optional_self msg fun msg => .message htag (by rw [hlen]; exact .ofEncodeRaw _) (hlen msg)

namespace UpdateOneofLimitedEncodeAccountInner

def info (m : UpdateOneofLimitedEncodeAccountInner) : SubscribeUpdateAccountInfo where
  pubkey := m.pubkey.val
  lamports := m.lamports
  owner := m.owner.val
  executable := m.executable
  rentEpoch := m.rentEpoch
  data := m.data
  writeVersion := m.writeVersion
  txnSignature := m.txnSignature

theorem writes (m : UpdateOneofLimitedEncodeAccountInner) :
    Writes m.encodeRaw m.encodedLen (WireMessage.encodeRaw m.info) := by
  have hkey : ∀ {tag : ℕ} (key : Pubkey), tag < 2 ^ 29 →
      Writes (bytesEncode tag key.val) (bytesEncodedLen tag key.val) (plain bytesEncode [] tag key.val) := by
    intro tag key htag
    refine .plain_of_ne ?_ (.bytes htag _)
    intro hnil
    have hlen := key.property
    rw [hnil] at hlen
    cases hlen
  refine .append (.append (.append (.append (.append (.append (.append ?_ ?_) ?_) ?_) ?_) ?_) ?_) ?_
  · exact hkey m.pubkey (by decide)
  · exact .plain_uint64 (by decide) m.lamports
  · exact hkey m.owner (by decide)
  · exact .plain_bool (by decide) m.executable
  · exact .plain_uint64 (by decide) m.rentEpoch
  · exact .plain_bytes (by decide) m.data
  · exact .plain_uint64 (by decide) m.writeVersion
  · exact .optional_self m.txnSignature fun value => .bytes (by decide) value

end UpdateOneofLimitedEncodeAccountInner

/-- The bytes that are written for an update: prost would write them, or it leaves out `is_startup`. -/
def LimitedWrites (update : UpdateOneofLimitedEncode) (v : UpdateOneof) : Prop :=
  Writes update.encode update.encodedLen v.encode ∨
    ∃ m, v = .account m ∧ m.isStartup = false ∧
      Writes update.encode update.encodedLen (message.encode 2 (StartupWritten.mk m))

/-- What is copied from the buffer. -/
theorem writes_copied {α : Type} [WireMessage α] {tag : ℕ} (htag : tag < 2 ^ 29) (msg : α)
    (hlen : WireMessage.encodedLen msg = (WireMessage.encodeRaw msg).length) :
    Writes (bytesEncode tag (WireMessage.encodeRaw msg)) (bytesEncodedLen tag (WireMessage.encodeRaw msg))
      (message.encode tag msg) := by
  have hencode : message.encode tag msg = bytesEncode tag (WireMessage.encodeRaw msg) := by
    rw [message.encode, hlen]
    rfl
  rw [hencode]
  exact .bytes htag _

theorem writes_account {account : UpdateOneofLimitedEncodeAccount} {α : Type} [WireMessage α] {msg : α}
    (hraw : Writes account.encodeRaw account.encodedLen (WireMessage.encodeRaw msg))
    (hlen : WireMessage.encodedLen msg = (WireMessage.encodeRaw msg).length) :
    Writes (UpdateOneofLimitedEncode.account account).encode (UpdateOneofLimitedEncode.account account).encodedLen
      (message.encode 2 msg) := by
  have h : Writes (message.encode 2 account) (message.encodedLen 2 account) (message.encode 2 msg) :=
    .message (by decide) hraw hlen
  exact h

/-- The update of an account that is sliced is never one of the startup. -/
theorem writes_fields (account : UpdateOneofLimitedEncodeAccountInner) (slot : UInt64) (isStartup : Bool)
    (bankId : Option UInt64) :
    LimitedWrites (.account (.fields account slot isStartup bankId))
      (.account ⟨some account.info, slot, false, bankId⟩) := by
  have haccount : Writes (message.encode 1 account) (message.encodedLen 1 account)
      (Lib.Protobuf.optional message.encode 1 (some account.info)) := .message (by decide) account.writes rfl
  have hslot := Writes.plain_uint64 (show 2 < 2 ^ 29 by decide) slot
  have hbank : Writes (bankId.elim [] (uint64.encode 4)) (bankId.elim 0 (uint64.encodedLen 4))
      (Lib.Protobuf.optional uint64.encode 4 bankId) := .optional_self bankId fun value => .varint (by decide) value
  cases isStartup with
  | true =>
    refine .inl (writes_account ?_ rfl)
    exact ((haccount.append hslot).append .nil).append hbank
  | false =>
    refine .inr ⟨_, rfl, rfl, writes_account ?_ rfl⟩
    exact ((haccount.append hslot).append (.bool (by decide) false)).append hbank

namespace UpdateOneofLimitedEncodeTransactionStatus

def value (m : UpdateOneofLimitedEncodeTransactionStatus) : SubscribeUpdateTransactionStatus where
  slot := m.slot
  signature := m.signature
  isVote := m.isVote
  index := m.index
  err := m.err
  bankId := m.bankId

theorem writes (m : UpdateOneofLimitedEncodeTransactionStatus) :
    Writes m.encodeRaw m.encodedLen (WireMessage.encodeRaw m.value) := by
  refine .append (.append (.append (.append (.append ?_ ?_) ?_) ?_) ?_) ?_
  · exact .plain_uint64 (by decide) m.slot
  · exact .plain_bytes (by decide) m.signature
  · exact .plain_bool (by decide) m.isVote
  · exact .plain_uint64 (by decide) m.index
  · exact writes_generated (by decide) (fun _ => rfl) m.err
  · exact .plain_uint64 (by decide) m.bankId

end UpdateOneofLimitedEncodeTransactionStatus

theorem writes_transactionStatus (m : UpdateOneofLimitedEncodeTransactionStatus) :
    Writes (UpdateOneofLimitedEncode.transactionStatus m).encode
      (UpdateOneofLimitedEncode.transactionStatus m).encodedLen (UpdateOneof.transactionStatus m.value).encode := by
  have h : Writes (message.encode 10 m) (message.encodedLen 10 m) (message.encode 10 m.value) :=
    .message (by decide) m.writes rfl
  exact h

namespace UpdateOneofLimitedEncodeBlock

theorem writes_slices {α : Type} [WireMessage α] {tag : ℕ} (htag : tag < 2 ^ 29)
    (hlen : ∀ msg : α, WireMessage.encodedLen msg = (WireMessage.encodeRaw msg).length) (msgs : List α) :
    Writes (encodeSlices tag (msgs.map WireMessage.encodeRaw)) (encodedLenSlices tag (msgs.map WireMessage.encodeRaw))
      (Lib.Protobuf.repeated message.encode tag msgs) := by
  have hall : Writes (msgs.flatMap fun msg => bytesEncode tag (WireMessage.encodeRaw msg))
      (msgs.map fun msg => bytesEncodedLen tag (WireMessage.encodeRaw msg)).sum
      ((msgs.map id).flatMap (message.encode tag)) := .flatMap fun msg _ => writes_copied htag msg (hlen msg)
  rw [List.map_id] at hall
  have hsum : encodedLenSlices tag (msgs.map WireMessage.encodeRaw) =
      (msgs.map fun msg => bytesEncodedLen tag (WireMessage.encodeRaw msg)).sum := by
    rw [encodedLenSlices, Writes.sum_key, List.map_map]
    refine congrArg List.sum (List.map_congr_left fun msg _ => ?_)
    rw [Function.comp, bytesEncodedLen]
    omega
  rw [hsum, encodeSlices, List.flatMap_map]
  exact hall

/-- The block of a limited message, with the parts that are copied. -/
def value (m : UpdateOneofLimitedEncodeBlock) (transactions : List SubscribeUpdateTransactionInfo)
    (entries : List SubscribeUpdateEntry) : SubscribeUpdateBlock where
  slot := m.slot
  blockhash := m.blockhash
  rewards := m.rewards
  blockTime := m.blockTime
  blockHeight := m.blockHeight
  parentSlot := m.parentSlot
  parentBlockhash := m.parentBlockhash
  executedTransactionCount := m.executedTransactionCount
  transactions
  updatedAccountCount := m.updatedAccountCount
  accounts := m.accounts.map (·.info)
  entriesCount := m.entriesCount
  entries
  bankId := m.bankId

theorem writes {m : UpdateOneofLimitedEncodeBlock} {transactions : List SubscribeUpdateTransactionInfo}
    {entries : List SubscribeUpdateEntry} (htransactions : m.transactions = transactions.map WireMessage.encodeRaw)
    (hentries : m.entries = entries.map WireMessage.encodeRaw) :
    Writes m.encodeRaw m.encodedLen (WireMessage.encodeRaw (m.value transactions entries)) := by
  unfold encodeRaw encodedLen
  rw [htransactions, hentries]
  refine .append (.append (.append (.append (.append (.append (.append (.append (.append (.append
    (.append (.append (.append ?_ ?_) ?_) ?_) ?_) ?_) ?_) ?_) ?_) ?_) ?_) ?_) ?_) ?_
  · exact .plain_uint64 (by decide) m.slot
  · exact writes_text (by decide) m.blockhash
  · exact writes_generated (by decide) (fun _ => rfl) m.rewards
  · exact writes_generated (by decide) (fun _ => rfl) m.blockTime
  · exact writes_generated (by decide) (fun _ => rfl) m.blockHeight
  · exact writes_slices (by decide) (fun _ => rfl) transactions
  · exact .plain_uint64 (by decide) m.parentSlot
  · exact writes_text (by decide) m.parentBlockhash
  · exact .plain_uint64 (by decide) m.executedTransactionCount
  · exact .plain_uint64 (by decide) m.updatedAccountCount
  · exact .messageRepeated (by decide) (fun account _ => account.writes) fun _ => rfl
  · exact .plain_uint64 (by decide) m.entriesCount
  · exact writes_slices (by decide) (fun _ => rfl) entries
  · exact .plain_uint64 (by decide) m.bankId

end UpdateOneofLimitedEncodeBlock

/-! ### What is sent of both messages -/

def SubscribeUpdateMessageProst.value (msg : SubscribeUpdateMessageProst) : SubscribeUpdate :=
  ⟨msg.filters, some msg.update, some msg.createdAt⟩

/-- A vector holds the message. -/
def FilteredUpdate.Fits (update : FilteredUpdate) : Prop :=
  ∀ message, FilteredUpdate.messageOf update.filters update.filteredUpdate = .ok message → message.encodedLen ≤ isizeMax

/-- What is read of the write version of an account. -/
def ReadVersion (a a' : SubscribeUpdateAccountInfo) : Prop :=
  a = a' ∨ a'.writeVersion = 0 ∧ a = { a' with writeVersion := 10 }

/-- The updates that are read for the one of prost. -/
inductive ReadFor : UpdateOneof → UpdateOneof → Prop
  | same (v : UpdateOneof) : ReadFor v v
  | account {a a' : SubscribeUpdateAccountInfo} (h : ReadVersion a a') (slot : UInt64) (isStartup : Bool)
      (bankId : Option UInt64) :
      ReadFor (.account ⟨some a, slot, false, bankId⟩) (.account ⟨some a', slot, isStartup, bankId⟩)
  | block {accounts : List SubscribeUpdateAccountInfo} {m : SubscribeUpdateBlock}
      (h : List.Forall₂ ReadVersion accounts m.accounts) : ReadFor (.block { m with accounts }) (.block m)

/-- The generated decoder reads what is sent for the update of prost. -/
def Generated.ReadsFor (gen : Generated) (update : FilteredUpdate) : Prop :=
  ∀ msg, FilteredUpdate.messageOf update.filters update.filteredUpdate = .ok (.prost msg) →
    ∀ v, ReadFor v msg.update → gen.ReadsSent { msg.value with updateOneof := some v }

section

variable {gen : Generated} {filters : List String} {type type' : FilteredUpdateType} {t : Proto.Timestamp}
  {v v' : UpdateOneof} {update : UpdateOneofLimitedEncode}

theorem encodeToVec_eq {message : SubscribeUpdateMessage}
    (hmessage : FilteredUpdate.messageOf filters type = .ok message)
    (hfits : message.encodedLen ≤ isizeMax) :
    FilteredUpdate.encodeToVec ⟨filters, type⟩ = .ok message.encodeRaw := by
  have hreserved : message.encodeReserved [] = .ok message.encodeRaw := by
    rw [SubscribeUpdateMessage.encodeReserved, List.length_nil, Nat.zero_add, if_pos hfits, List.nil_append]
  exact bind_eq_ok.mpr ⟨message, hmessage, hreserved⟩

theorem encodeToVec_eq_ok {out : Bytes} (h : FilteredUpdate.encodeToVec ⟨filters, type⟩ = .ok out) :
    ∃ message, FilteredUpdate.messageOf filters type = .ok message ∧ message.encodedLen ≤ isizeMax ∧
      out = message.encodeRaw := by
  obtain ⟨message, hmessage, hreserved⟩ := bind_eq_ok.mp h
  refine ⟨message, hmessage, ?_⟩
  unfold SubscribeUpdateMessage.encodeReserved at hreserved
  split at hreserved
  · rename_i hfits
    rw [List.length_nil, Nat.zero_add] at hfits
    exact ⟨hfits, (Except.ok.inj hreserved).symm⟩
  · cases hreserved

/-- The client reads of a limited message what its update is written for. -/
theorem decode_limited (hwrites : LimitedWrites update v)
    (hfits : (SubscribeUpdateMessage.limited ⟨filters, update, t⟩).encodedLen ≤ isizeMax)
    (hreads : gen.ReadsSent ⟨filters, some v, some t⟩) :
    gen.subscribeUpdate (SubscribeUpdateMessage.limited ⟨filters, update, t⟩).encodeRaw =
      .ok (SubscribeUpdate.readBack ⟨filters, some v, some t⟩) := by
  have hlt : (SubscribeUpdateMessage.limited ⟨filters, update, t⟩).encodedLen < 2 ^ 64 := by
    unfold isizeMax at hfits
    omega
  have hlen := (SubscribeUpdateMessage.limited ⟨filters, update, t⟩).nests.measures (.inr hlt)
  have hpart : update.encode.length < 2 ^ 64 := by
    rw [hlen, SubscribeUpdateMessage.encodeRaw, List.length_append, List.length_append] at hlt
    simp only [SubscribeUpdateMessage.encodeUpdate] at hlt
    omega
  have hraw : (SubscribeUpdateMessage.limited ⟨filters, update, t⟩).encodeRaw =
      encodeAround ⟨filters, some v, some t⟩ update.encode := rfl
  rw [hraw]
  rcases hwrites with h | ⟨m, rfl, hstartup, h⟩
  · rw [(h (.inl hpart)).1]
    exact hreads.subscribeUpdate
  · rw [(h (.inl hpart)).1]
    exact hreads.startup m rfl hstartup

/-- The client reads the same of both just if the same is written for them. -/
theorem decodesAlike_iff_readBack (hwrites : LimitedWrites update v)
    (hlimited : FilteredUpdate.messageOf filters type = .ok (.limited ⟨filters, update, t⟩))
    (hprost : FilteredUpdate.messageOf filters type' = .ok (.prost ⟨filters, v', t⟩))
    (hfits : FilteredUpdate.Fits ⟨filters, type⟩) (hsent : Succeeds (FilteredUpdate.encodeToVec ⟨filters, type'⟩))
    (hread : ReadFor v v') (hgen : gen.ReadsFor ⟨filters, type'⟩) :
    DecodesAlike gen ⟨filters, type⟩ ⟨filters, type'⟩ ↔ v.readBack = v'.readBack := by
  have hreads := hgen _ hprost
  obtain ⟨out', hout'⟩ := hsent
  obtain ⟨message, hmessage, -, rfl⟩ := encodeToVec_eq_ok hout'
  obtain rfl := Except.ok.inj (hprost.symm.trans hmessage)
  have hout := encodeToVec_eq hlimited (hfits _ hlimited)
  have hdecode := decode_limited hwrites (hfits _ hlimited) (hreads v hread)
  have hdecode' : gen.subscribeUpdate (SubscribeUpdateMessage.prost ⟨filters, v', t⟩).encodeRaw =
      .ok (SubscribeUpdate.readBack ⟨filters, some v', some t⟩) := (hreads v' (.same v')).subscribeUpdate
  constructor
  · rintro ⟨out, out', w, h, h', hw, hw'⟩
    obtain rfl := Except.ok.inj (hout.symm.trans h)
    obtain rfl := Except.ok.inj (hout'.symm.trans h')
    obtain rfl := Except.ok.inj (hdecode.symm.trans hw)
    have heq := Except.ok.inj (hdecode'.symm.trans hw')
    exact (Option.some.inj (congrArg SubscribeUpdate.updateOneof heq)).symm
  · intro heq
    refine ⟨_, _, _, hout, hout', hdecode, hdecode'.trans (congrArg Except.ok ?_)⟩
    rw [SubscribeUpdate.readBack, SubscribeUpdate.readBack, Option.map_some, Option.map_some, heq]

/-- Both messages are written by prost. -/
theorem decodesAlike_prost (hlimited : FilteredUpdate.messageOf filters type = .ok (.prost ⟨filters, v', t⟩))
    (hprost : FilteredUpdate.messageOf filters type' = .ok (.prost ⟨filters, v', t⟩))
    (hsent : Succeeds (FilteredUpdate.encodeToVec ⟨filters, type'⟩)) (hgen : gen.ReadsFor ⟨filters, type'⟩) :
    DecodesAlike gen ⟨filters, type⟩ ⟨filters, type'⟩ := by
  obtain ⟨out', hout'⟩ := hsent
  obtain ⟨message, hmessage, hfits, rfl⟩ := encodeToVec_eq_ok hout'
  obtain rfl := Except.ok.inj (hprost.symm.trans hmessage)
  have hdecode := (hgen _ hprost v' (.same v')).subscribeUpdate
  exact ⟨_, _, _, encodeToVec_eq hlimited hfits, hout', hdecode, hdecode⟩

end

/-! ### Accounts -/

/-- The account that is put together from a limited message. -/
def LimitedAccount.sent (msg : LimitedAccount) (a : SubscribeUpdateAccountInfo) : SubscribeUpdateAccountInfo :=
  { a with writeVersion := if msg.HasVersion then a.writeVersion else 10 }

section

variable {msg : LimitedAccount} {msg' : ProstAccount} {a : SubscribeUpdateAccountInfo}
  {dataSlices : FilterAccountDataSlices}

theorem writeVersion_prostAccountInfo (ha : FilteredUpdate.prostAccountInfo msg'.account dataSlices = .ok a) :
    a.writeVersion = msg'.account.writeVersion := by
  obtain ⟨data, -, hmsg⟩ := bind_eq_ok.mp ha
  obtain rfl := Except.ok.inj hmsg
  rfl

theorem limitedAccountInner_eq (h : AccountTwins msg msg')
    (ha : FilteredUpdate.prostAccountInfo msg'.account dataSlices = .ok a) :
    ∃ inner, FilteredUpdate.limitedAccountInner msg dataSlices = .ok inner ∧ inner.info = msg.sent a := by
  obtain ⟨data, hdata, hmsg⟩ := bind_eq_ok.mp ha
  obtain rfl := Except.ok.inj hmsg
  refine ⟨_, bind_eq_ok.mpr ⟨_, h.data, bind_eq_ok.mpr ⟨data, hdata, bind_eq_ok.mpr ⟨_, h.writeVersion,
    bind_eq_ok.mpr ⟨_, h.txnSignature, rfl⟩⟩⟩⟩, ?_⟩
  simp only [UpdateOneofLimitedEncodeAccountInner.info, LimitedAccount.sent, h.pubkeyBytes, h.ownerBytes, h.lamports,
    h.executable, h.rentEpoch]

theorem readVersion_sent (h : AccountTwins msg msg') (ha : a.writeVersion = msg'.account.writeVersion) :
    ReadVersion (msg.sent a) a := by
  by_cases hversion : msg.HasVersion
  · refine .inl ?_
    rw [LimitedAccount.sent, if_pos hversion]
  · refine .inr ⟨ha.trans (h.omitted hversion), ?_⟩
    rw [LimitedAccount.sent, if_neg hversion]

theorem sent_eq_iff (h : AccountTwins msg msg') (ha : a.writeVersion = msg'.account.writeVersion) :
    msg.sent a = a ↔ msg.HasVersion := by
  constructor
  · intro heq
    by_contra hnone
    have hten := congrArg SubscribeUpdateAccountInfo.writeVersion heq
    rw [LimitedAccount.sent, if_neg hnone, ha, h.omitted hnone] at hten
    cases hten
  · intro hversion
    rw [LimitedAccount.sent, if_pos hversion]

end

section

variable {gen : Generated} {filters : List String}

/-- An account is copied whole, or put together for the slices of its data. -/
theorem decodesAlike_account {msg : LimitedAccount} {msg' : ProstAccount} {dataSlices : FilterAccountDataSlices}
    (h : AccountTwins msg msg')
    (hbytes : indexRange msg.buffer msg.range = .ok (WireMessage.encodeRaw
      (⟨some msg'.account, msg'.slot, msg'.isStartup, msg'.bankId⟩ : SubscribeUpdateAccount)))
    (hfits : FilteredUpdate.Fits ⟨filters, .account (.limited msg) dataSlices⟩)
    (hsent : Succeeds (FilteredUpdate.encodeToVec ⟨filters, .account (.prost msg') dataSlices⟩))
    (hgen : gen.ReadsFor ⟨filters, .account (.prost msg') dataSlices⟩) :
    DecodesAlike gen ⟨filters, .account (.limited msg) dataSlices⟩ ⟨filters, .account (.prost msg') dataSlices⟩ ↔
      dataSlices = [] ∨ msg.isStartup = false ∧ msg.HasVersion := by
  obtain ⟨out', hout'⟩ := hsent
  obtain ⟨message, hmessage, -, -⟩ := encodeToVec_eq_ok hout'
  obtain ⟨a, ha, hmsg⟩ := bind_eq_ok.mp hmessage
  obtain rfl := Except.ok.inj hmsg
  by_cases hnil : dataSlices = []
  · subst hnil
    obtain rfl : msg'.account = a := Except.ok.inj ha
    have hlimited : FilteredUpdate.messageOf filters (.account (.limited msg) []) =
        .ok (.limited ⟨filters, .account (.slice (WireMessage.encodeRaw
          (⟨some msg'.account, msg'.slot, msg'.isStartup, msg'.bankId⟩ : SubscribeUpdateAccount))),
            msg'.createdAt⟩) := by
      rw [← h.createdAt]
      exact bind_eq_ok.mpr ⟨_, bind_eq_ok.mpr ⟨_, hbytes, rfl⟩, rfl⟩
    refine iff_of_true ((decodesAlike_iff_readBack (.inl ?_) hlimited hmessage hfits ⟨out', hout'⟩ (.same _) hgen).mpr
      rfl) (.inl rfl)
    exact writes_copied (show 2 < 2 ^ 29 by decide) _ rfl
  · obtain ⟨inner, hinner, hinfo⟩ := limitedAccountInner_eq h ha
    have hversion := writeVersion_prostAccountInfo ha
    have hlimited : FilteredUpdate.messageOf filters (.account (.limited msg) dataSlices) =
        .ok (.limited ⟨filters, .account (.fields inner msg.slot msg.isStartup msg.bankId), msg'.createdAt⟩) := by
      rw [← h.createdAt]
      refine bind_eq_ok.mpr ⟨_, ?_, rfl⟩
      rw [FilteredUpdate.limitedAccount, if_neg (by rwa [List.isEmpty_iff])]
      exact bind_eq_ok.mpr ⟨inner, hinner, rfl⟩
    have hwrites := writes_fields inner msg.slot msg.isStartup msg.bankId
    rw [hinfo, h.slot, h.bankId] at hwrites
    rw [h.slot, h.bankId] at hlimited
    refine (decodesAlike_iff_readBack hwrites hlimited hmessage hfits ⟨out', hout'⟩
      (.account (readVersion_sent h hversion) _ _ _) hgen).trans ?_
    simp only [UpdateOneof.readBack, UpdateOneof.account.injEq, SubscribeUpdateAccount.mk.injEq, Option.some.injEq,
      sent_eq_iff h hversion, ← h.isStartup, hnil, false_or, true_and, and_true]
    exact and_comm.trans (and_congr_left' eq_comm)

/-! ### The kinds that are copied -/

/-- The same is written for both. -/
theorem decodesAlike_of_writes {type type' : FilteredUpdateType} {t : Proto.Timestamp} {v : UpdateOneof}
    {update : UpdateOneofLimitedEncode} (hwrites : Writes update.encode update.encodedLen v.encode)
    (hlimited : FilteredUpdate.messageOf filters type = .ok (.limited ⟨filters, update, t⟩))
    (hprost : FilteredUpdate.messageOf filters type' = .ok (.prost ⟨filters, v, t⟩))
    (hfits : FilteredUpdate.Fits ⟨filters, type⟩) (hsent : Succeeds (FilteredUpdate.encodeToVec ⟨filters, type'⟩))
    (hgen : gen.ReadsFor ⟨filters, type'⟩) : DecodesAlike gen ⟨filters, type⟩ ⟨filters, type'⟩ :=
  (decodesAlike_iff_readBack (.inl hwrites) hlimited hprost hfits hsent (.same v) hgen).mpr rfl

theorem decodesAlike_slot {msg : LimitedSlot} {msg' : ProstSlot} (h : SlotTwins msg msg')
    (hfits : FilteredUpdate.Fits ⟨filters, .slot (.limited msg)⟩)
    (hsent : Succeeds (FilteredUpdate.encodeToVec ⟨filters, .slot (.prost msg')⟩))
    (hgen : gen.ReadsFor ⟨filters, .slot (.prost msg')⟩) :
    DecodesAlike gen ⟨filters, .slot (.limited msg)⟩ ⟨filters, .slot (.prost msg')⟩ := by
  have hlimited : FilteredUpdate.messageOf filters (.slot (.limited msg)) =
      .ok (.limited ⟨filters, .slot (WireMessage.encodeRaw
        (⟨msg'.slot, msg'.parent, slotStatusToI32 msg'.status, msg'.deadError, msg'.bankId⟩ : SubscribeUpdateSlot)),
          msg'.createdAt⟩) := by
    rw [← h.createdAt]
    exact bind_eq_ok.mpr ⟨_, h.bytes, rfl⟩
  refine decodesAlike_of_writes ?_ hlimited rfl hfits hsent hgen
  exact writes_copied (show 3 < 2 ^ 29 by decide) _ rfl

theorem decodesAlike_transaction {msg : LimitedTransaction} {msg' : ProstTransaction} (h : TransactionTwins msg msg')
    (hfits : FilteredUpdate.Fits ⟨filters, .transaction (.limited msg)⟩)
    (hsent : Succeeds (FilteredUpdate.encodeToVec ⟨filters, .transaction (.prost msg')⟩))
    (hgen : gen.ReadsFor ⟨filters, .transaction (.prost msg')⟩) :
    DecodesAlike gen ⟨filters, .transaction (.limited msg)⟩ ⟨filters, .transaction (.prost msg')⟩ := by
  have hlimited : FilteredUpdate.messageOf filters (.transaction (.limited msg)) =
      .ok (.limited ⟨filters, .transaction (WireMessage.encodeRaw
        (⟨some msg'.transaction, msg'.slot, msg'.bankId⟩ : SubscribeUpdateTransaction)), msg'.createdAt⟩) := by
    rw [← h.createdAt]
    exact bind_eq_ok.mpr ⟨_, h.bytes, rfl⟩
  refine decodesAlike_of_writes ?_ hlimited rfl hfits hsent hgen
  exact writes_copied (show 4 < 2 ^ 29 by decide) _ rfl

theorem decodesAlike_entry {msg : LimitedEntry} {msg' : ProstEntry} (h : EntryTwins msg msg')
    (hfits : FilteredUpdate.Fits ⟨filters, .entry (.limited msg)⟩)
    (hsent : Succeeds (FilteredUpdate.encodeToVec ⟨filters, .entry (.prost msg')⟩))
    (hgen : gen.ReadsFor ⟨filters, .entry (.prost msg')⟩) :
    DecodesAlike gen ⟨filters, .entry (.limited msg)⟩ ⟨filters, .entry (.prost msg')⟩ := by
  have hlimited : FilteredUpdate.messageOf filters (.entry (.limited msg)) =
      .ok (.limited ⟨filters, .entry (WireMessage.encodeRaw msg'.entry), msg'.createdAt⟩) := by
    rw [← h.createdAt]
    exact bind_eq_ok.mpr ⟨_, h.bytes, rfl⟩
  refine decodesAlike_of_writes ?_ hlimited rfl hfits hsent hgen
  exact writes_copied (show 8 < 2 ^ 29 by decide) _ rfl

theorem decodesAlike_blockMeta {msg : LimitedBlockMeta} {msg' : ProstBlockMeta} (h : BlockMetaTwins msg msg')
    (hfits : FilteredUpdate.Fits ⟨filters, .blockMeta (.limited msg)⟩)
    (hsent : Succeeds (FilteredUpdate.encodeToVec ⟨filters, .blockMeta (.prost msg')⟩))
    (hgen : gen.ReadsFor ⟨filters, .blockMeta (.prost msg')⟩) :
    DecodesAlike gen ⟨filters, .blockMeta (.limited msg)⟩ ⟨filters, .blockMeta (.prost msg')⟩ := by
  have hlimited : FilteredUpdate.messageOf filters (.blockMeta (.limited msg)) =
      .ok (.limited ⟨filters, .blockMeta (WireMessage.encodeRaw msg'.blockMeta), msg'.createdAt⟩) := by
    rw [← h.createdAt]
    exact bind_eq_ok.mpr ⟨_, h.bytes, rfl⟩
  refine decodesAlike_of_writes ?_ hlimited rfl hfits hsent hgen
  exact writes_copied (show 7 < 2 ^ 29 by decide) _ rfl

/-! ### Transaction statuses -/

theorem decodesAlike_transactionStatus {msg : LimitedTransaction} {msg' : ProstTransaction}
    (h : TransactionTwins msg msg') (hsigned : msg.signatureOffset.isSome)
    (hfits : FilteredUpdate.Fits ⟨filters, .transactionStatus (.limited msg)⟩)
    (hsent : Succeeds (FilteredUpdate.encodeToVec ⟨filters, .transactionStatus (.prost msg')⟩))
    (hgen : gen.ReadsFor ⟨filters, .transactionStatus (.prost msg')⟩) :
    DecodesAlike gen ⟨filters, .transactionStatus (.limited msg)⟩ ⟨filters, .transactionStatus (.prost msg')⟩ := by
  obtain ⟨offset, hoffset⟩ := Option.isSome_iff_exists.mp hsigned
  have hsignature : indexSignature (.limited msg) = .ok msg'.transaction.signature := by
    rw [indexSignature, hoffset]
    exact h.signature offset hoffset
  have hlimited : FilteredUpdate.messageOf filters (.transactionStatus (.limited msg)) =
      .ok (.limited ⟨filters, .transactionStatus
        ⟨msg.slot, msg'.transaction.signature, msg.isVote, msg.index, msg.error, msg.bankId⟩, msg'.createdAt⟩) := by
    rw [← h.createdAt]
    exact bind_eq_ok.mpr ⟨_, bind_eq_ok.mpr ⟨_, hsignature, rfl⟩, rfl⟩
  rw [h.slot, h.isVote, h.index, h.error, h.bankId] at hlimited
  refine decodesAlike_of_writes ?_ hlimited rfl hfits hsent hgen
  exact writes_transactionStatus _

/-! ### Blocks -/

theorem writes_block {m : UpdateOneofLimitedEncodeBlock} {block : SubscribeUpdateBlock}
    (hraw : Writes m.encodeRaw m.encodedLen (WireMessage.encodeRaw block)) :
    Writes (UpdateOneofLimitedEncode.block m).encode (UpdateOneofLimitedEncode.block m).encodedLen
      (UpdateOneof.block block).encode := by
  have h : Writes (message.encode 5 m) (message.encodedLen 5 m) (message.encode 5 block) :=
    .message (by decide) hraw rfl
  exact h

theorem indexItem_eq_ok {α : Type} {items : List α} {idx : ℕ} {item : α} :
    indexItem items idx = .ok item ↔ items[idx]? = some item := by
  unfold indexItem
  cases h : items[idx]? with
  | none => simp
  | some item' => simp

/-- The items of two lists at one place. -/
theorem getElem?_forall₂ {α β : Type} {R : α → β → Prop} {xs : List α} {ys : List β} (h : List.Forall₂ R xs ys)
    {idx : ℕ} {y : β} (hy : ys[idx]? = some y) : ∃ x, xs[idx]? = some x ∧ R x y := by
  induction h generalizing idx with
  | nil => cases hy
  | cons hR _ ih =>
    cases idx with
    | zero =>
      obtain rfl := Option.some.inj hy
      exact ⟨_, rfl, hR⟩
    | succ idx => exact ih hy

/-! What the encoders take for an item of the block. -/

section

variable (message : MessageBlock)

def limitedTransactionAt (idx : ℕ) : Except FilterPanic Bytes := do
  match ← indexItem message.transactions idx with
  | .limited msg => indexRange msg.buffer msg.transactionRange
  | .prost _ => throw .unreachable

def prostTransactionAt (idx : ℕ) : Except FilterPanic SubscribeUpdateTransactionInfo := do
  match ← indexItem message.transactions idx with
  | .limited _ => throw .unreachable
  | .prost msg => return msg.transaction

def limitedAccountAt (dataSlices : FilterAccountDataSlices) (idx : ℕ) :
    Except FilterPanic UpdateOneofLimitedEncodeAccountInner := do
  match ← indexItem message.accounts idx with
  | .limited msg => FilteredUpdate.limitedAccountInner msg dataSlices
  | .prost _ => throw .unreachable

def prostAccountAt (dataSlices : FilterAccountDataSlices) (idx : ℕ) :
    Except FilterPanic SubscribeUpdateAccountInfo := do
  match ← indexItem message.accounts idx with
  | .limited _ => throw .unreachable
  | .prost msg => FilteredUpdate.prostAccountInfo msg.account dataSlices

end

def limitedEntry : MessageEntry → Except FilterPanic Bytes
  | .limited msg => indexRange msg.buffer msg.range
  | .prost _ => throw .unreachable

def prostEntry : MessageEntry → Except FilterPanic SubscribeUpdateEntry
  | .limited _ => throw .unreachable
  | .prost msg => return msg.entry

section

variable {block block' : MessageBlock} {dataSlices : FilterAccountDataSlices}

theorem transactions_eq (h : BlockTwins block block') {indexes : List ℕ}
    {transactions : List SubscribeUpdateTransactionInfo}
    (htransactions : indexes.mapM (prostTransactionAt block') = .ok transactions) :
    indexes.mapM (limitedTransactionAt block) = .ok (transactions.map WireMessage.encodeRaw) := by
  refine mapM_eq_map (P := Eq) (List.forall₂_same.mpr fun _ _ => rfl) ?_ htransactions
  rintro idx _ info rfl hinfo
  obtain ⟨tx', htx', hinfo⟩ := bind_eq_ok.mp hinfo
  obtain ⟨tx, htx, hpair⟩ := getElem?_forall₂ h.transactions (indexItem_eq_ok.mp htx')
  cases hpair with
  | intro htwins =>
    obtain rfl := Except.ok.inj hinfo
    exact bind_eq_ok.mpr ⟨_, indexItem_eq_ok.mpr htx, htwins.info⟩

theorem entries_eq (h : BlockTwins block block') {entries : List SubscribeUpdateEntry}
    (hentries : block'.entries.mapM prostEntry = .ok entries) :
    block.entries.mapM limitedEntry = .ok (entries.map WireMessage.encodeRaw) := by
  refine mapM_eq_map h.entries ?_ hentries
  rintro msg msg' entry ⟨htwins⟩ hentry
  obtain rfl := Except.ok.inj hentry
  exact htwins.bytes

/-- Both take an account of the block at one place. -/
theorem accountAt_eq (h : BlockTwins block block') {idx : ℕ} {a : SubscribeUpdateAccountInfo}
    (ha : prostAccountAt block' dataSlices idx = .ok a) :
    ∃ msg msg' inner, block.accounts[idx]? = some (.limited msg) ∧ AccountTwins msg msg' ∧
      a.writeVersion = msg'.account.writeVersion ∧ limitedAccountAt block dataSlices idx = .ok inner ∧
        inner.info = msg.sent a := by
  obtain ⟨account', haccount', ha⟩ := bind_eq_ok.mp ha
  obtain ⟨account, haccount, hpair⟩ := getElem?_forall₂ h.accounts (indexItem_eq_ok.mp haccount')
  cases hpair with
  | @intro msg msg' htwins =>
    obtain ⟨inner, hinner, hinfo⟩ := limitedAccountInner_eq htwins ha
    exact ⟨msg, msg', inner, haccount, htwins, writeVersion_prostAccountInfo ha,
      bind_eq_ok.mpr ⟨_, indexItem_eq_ok.mpr haccount, hinner⟩, hinfo⟩

/-- The accounts that are taken have their write versions. -/
def HaveVersions (message : MessageBlock) (accounts : List ℕ) : Prop :=
  ∀ idx ∈ accounts, ∀ msg, message.accounts[idx]? = some (.limited msg) → msg.HasVersion

theorem accounts_eq (h : BlockTwins block block') {indexes : List ℕ} {accounts : List SubscribeUpdateAccountInfo}
    (haccounts : indexes.mapM (prostAccountAt block' dataSlices) = .ok accounts) :
    ∃ inners, indexes.mapM (limitedAccountAt block dataSlices) = .ok inners ∧
      List.Forall₂ ReadVersion (inners.map (·.info)) accounts ∧
        (inners.map (·.info) = accounts ↔ HaveVersions block indexes) := by
  obtain ⟨inners, hinners, hall⟩ := mapM_forall₂ (P := Eq) (g := limitedAccountAt block dataSlices)
    (R := fun inner a => ReadVersion inner.info a) (List.forall₂_same.mpr fun _ _ => rfl) (by
      rintro idx _ a rfl ha
      obtain ⟨msg, msg', inner, -, htwins, hversion, hinner, hinfo⟩ := accountAt_eq h ha
      exact ⟨inner, hinner, hinfo ▸ readVersion_sent htwins hversion⟩) haccounts
  refine ⟨inners, hinners, List.forall₂_map_left_iff.mpr hall, mapM_map_eq_iff hinners haccounts ?_⟩
  intro idx _ a inner ha hinner
  obtain ⟨msg, msg', inner', hmsg, htwins, hversion, hinner', hinfo⟩ := accountAt_eq h ha
  obtain rfl := Except.ok.inj (hinner.symm.trans hinner')
  rw [hinfo, sent_eq_iff htwins hversion, hmsg]
  constructor
  · intro hversion _ heq
    cases heq
    exact hversion
  · exact fun hall => hall msg rfl

/-- The block of a message of prost with the parts that are taken. -/
def blockOf (blockMeta : SubscribeUpdateBlockMeta) (updatedAccountCount : UInt64)
    (transactions : List SubscribeUpdateTransactionInfo) (accounts : List SubscribeUpdateAccountInfo)
    (entries : List SubscribeUpdateEntry) : SubscribeUpdateBlock where
  slot := blockMeta.slot
  blockhash := blockMeta.blockhash
  rewards := blockMeta.rewards
  blockTime := blockMeta.blockTime
  blockHeight := blockMeta.blockHeight
  parentSlot := blockMeta.parentSlot
  parentBlockhash := blockMeta.parentBlockhash
  executedTransactionCount := blockMeta.executedTransactionCount
  transactions
  updatedAccountCount
  accounts
  entriesCount := blockMeta.entriesCount
  entries
  bankId := blockMeta.bankId

/-- The block of the limited encoder is the one of prost, but for the write versions of its accounts. -/
theorem limitedBlock_eq (h : BlockTwins block block') {accounts transactions : List ℕ} {entries : Bool}
    {m : SubscribeUpdateBlock}
    (hblock : FilteredUpdate.prostBlock block' accounts transactions entries dataSlices = .ok m) :
    ∃ inner : UpdateOneofLimitedEncodeBlock,
      FilteredUpdate.limitedBlock block accounts transactions entries dataSlices = .ok inner ∧
      Writes inner.encodeRaw inner.encodedLen
        (WireMessage.encodeRaw ({ m with accounts := inner.accounts.map (·.info) } : SubscribeUpdateBlock)) ∧
        List.Forall₂ ReadVersion (inner.accounts.map (·.info)) m.accounts ∧
          (inner.accounts.map (·.info) = m.accounts ↔ HaveVersions block accounts) := by
  obtain ⟨limited, prost, hlimited, hprost, htwins⟩ := h.blockMeta.exists
  rw [FilteredUpdate.prostBlock, hprost] at hblock
  obtain ⟨infos, htransactions, hblock⟩ := bind_eq_ok.mp hblock
  obtain ⟨taken, haccounts, hblock⟩ := bind_eq_ok.mp hblock
  obtain ⟨items, hitems, rfl⟩ : ∃ items, (if entries then block.entries.mapM limitedEntry else pure []) =
      .ok (items.map WireMessage.encodeRaw) ∧
        blockOf prost.blockMeta (UInt64.ofNat block'.accounts.length) infos taken items = m := by
    cases entries with
    | true =>
      obtain ⟨items, hentries, hblock⟩ := bind_eq_ok.mp hblock
      exact ⟨items, entries_eq h hentries, Except.ok.inj hblock⟩
    | false => exact ⟨[], rfl, Except.ok.inj hblock⟩
  obtain ⟨inners, hinners, hread, hiff⟩ := accounts_eq h haccounts
  let inner : UpdateOneofLimitedEncodeBlock :=
    { slot := limited.blockMeta.slot
      blockhash := limited.blockMeta.blockhash
      rewards := limited.blockMeta.rewards
      blockTime := limited.blockMeta.blockTime
      blockHeight := limited.blockMeta.blockHeight
      parentSlot := limited.blockMeta.parentSlot
      parentBlockhash := limited.blockMeta.parentBlockhash
      executedTransactionCount := limited.blockMeta.executedTransactionCount
      transactions := infos.map WireMessage.encodeRaw
      updatedAccountCount := UInt64.ofNat block.accounts.length
      accounts := inners
      entriesCount := limited.blockMeta.entriesCount
      entries := items.map WireMessage.encodeRaw
      bankId := limited.blockMeta.bankId }
  refine ⟨inner, ?_, ?_, hread, hiff⟩
  · rw [FilteredUpdate.limitedBlock, hlimited]
    refine bind_eq_ok.mpr ⟨_, transactions_eq h htransactions, bind_eq_ok.mpr ⟨_, hinners, ?_⟩⟩
    cases entries with
    | true => exact bind_eq_ok.mpr ⟨_, hitems, rfl⟩
    | false => exact bind_eq_ok.mpr ⟨_, hitems, rfl⟩
  · have hvalue : inner.value infos items =
        { blockOf prost.blockMeta (UInt64.ofNat block'.accounts.length) infos taken items with
          accounts := inner.accounts.map (·.info) } := by
      rw [UpdateOneofLimitedEncodeBlock.value, blockOf]
      simp only [inner, htwins.blockMeta, h.accounts.length_eq]
    rw [← hvalue]
    exact UpdateOneofLimitedEncodeBlock.writes rfl rfl

end

/-- A block is put together from the parts of both kinds of messages. -/
theorem decodesAlike_block {block block' : MessageBlock} (h : BlockTwins block block') {accounts transactions : List ℕ}
    {entries : Bool} {dataSlices : FilterAccountDataSlices}
    (hfits : FilteredUpdate.Fits ⟨filters, .block block accounts transactions entries dataSlices⟩)
    (hsent : Succeeds (FilteredUpdate.encodeToVec ⟨filters, .block block' accounts transactions entries dataSlices⟩))
    (hgen : gen.ReadsFor ⟨filters, .block block' accounts transactions entries dataSlices⟩) :
    DecodesAlike gen ⟨filters, .block block accounts transactions entries dataSlices⟩
        ⟨filters, .block block' accounts transactions entries dataSlices⟩ ↔ HaveVersions block accounts := by
  obtain ⟨t, ht, ht'⟩ := h.createdAt
  obtain ⟨out', hout'⟩ := hsent
  obtain ⟨message, hmessage, -, -⟩ := encodeToVec_eq_ok hout'
  have hmsg := hmessage
  rw [FilteredUpdate.messageOf, ht'] at hmsg
  obtain ⟨m, hblock, hmsg⟩ := bind_eq_ok.mp hmsg
  obtain rfl := Except.ok.inj hmsg
  obtain ⟨inner, hinner, hwrites, hread, hiff⟩ := limitedBlock_eq h hblock
  have hlimited : FilteredUpdate.messageOf filters (.block block accounts transactions entries dataSlices) =
      .ok (.limited ⟨filters, .block inner, t⟩) := by
    rw [FilteredUpdate.messageOf, ht]
    exact bind_eq_ok.mpr ⟨inner, hinner, rfl⟩
  refine (decodesAlike_iff_readBack (.inl (writes_block hwrites)) hlimited hmessage hfits ⟨out', hout'⟩ (.block hread)
    hgen).trans ?_
  rw [← hiff]
  constructor
  · intro heq
    exact congrArg SubscribeUpdateBlock.accounts (UpdateOneof.block.inj heq)
  · intro heq
    rw [heq]

end

end Richat.Filter
