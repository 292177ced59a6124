import Richat.Filter.DecodePlaces
import Richat.Filter.UpdatesSpec

/-!
# The places of a parsed message

The parser does not panic, whatever the bytes are (`parseChecked_eq`), and the places of a message are where they
should be exactly if its bytes are `Sound`: the text of a dead slot is looked for at a place of another buffer, an
account may come without a write version, and a transaction without a signature or with a nested message that runs
past its end.
-/

namespace Richat.Filter

open Lib Lib.Protobuf

/-! ### The parser does not panic -/

variable {gen : Generated} {data : Bytes} {createdAt : Proto.Timestamp} {range : Range}

theorem indexRange_eq {bytes : Bytes} (h : range.In bytes) : indexRange bytes range = .ok (slice bytes range) := if_pos h

theorem sliceData_eq (h : range.In data) : sliceData data range = (pure (slice data range) : Parsed Bytes) := by
  rw [sliceData, indexRange_eq h]
  rfl

theorem length_slice {bytes : Bytes} (h : range.In bytes) : (slice bytes range).length = range.stop - range.start := by
  obtain ⟨hle, hstop⟩ := h
  rw [slice, List.length_take, List.length_drop]
  omega

/-- A range of a part. -/
theorem Range.In.shift {inner : Range} (h : range.In data) (hinner : inner.In (slice data range)) :
    (inner.shift range.start).In data := by
  have hlen := length_slice h
  obtain ⟨hle, hstop⟩ := h
  obtain ⟨hle', hstop'⟩ := hinner
  constructor <;> simp only [Range.shift] <;> omega

namespace MessageParserLimited

theorem transaction_in {body : Bytes} {message : UpdateOneofLimitedDecodeTransaction}
    (h : limitedDecode UpdateOneofLimitedDecodeTransaction.mergeField .default body = .ok message)
    (hrange : message.transaction = some range) : range.In body := by
  obtain ⟨content, after, hlast, rfl⟩ := (UpdateOneofLimitedDecodeTransaction.transaction_iff h).mp hrange
  exact place_in hlast.2.1.suffix

theorem liftExcept_ok_bind {ε ε' α β : Type} (a : α) (f : α → ExceptT ε (Except ε') β) :
    ((liftExcept (.ok a : Except ε α) : ExceptT ε (Except ε') α) >>= f) = f a := rfl

theorem liftExcept_eq {ε ε' α : Type} (r : Except ε α) : (liftExcept r : ExceptT ε (Except ε') α) = .ok r := by
  cases r with
  | error e => rfl
  | ok a => rfl

theorem ok_bind {ε α β : Type} (a : α) (f : α → Except ε β) : ((.ok a : Except ε α) >>= f) = f a := rfl

theorem ofDecode_eq_ok {α : Type} {r : Except DecodeError α} {a : α} : ofDecode r = .ok a ↔ r = .ok a := by
  cases r with
  | error e => simp [ofDecode, Except.mapError]
  | ok a' => simp [ofDecode, Except.mapError]

theorem ofDecode_ok {α : Type} (a : α) : ofDecode (.ok a) = .ok a := rfl

theorem parseTransactionChecked_eq (h : range.In data) : parseTransactionChecked gen data createdAt range =
    liftExcept (parseTransaction gen data createdAt range) := by
  unfold parseTransactionChecked parseTransaction
  rw [sliceData_eq h, pure_bind]
  cases hmessage : limitedDecode UpdateOneofLimitedDecodeTransaction.mergeField .default (slice data range) with
  | error e => rfl
  | ok message =>
    rw [ofDecode_ok, liftExcept_ok_bind, ok_bind]
    cases htransaction : message.transaction with
    | none => rfl
    | some transaction =>
      have hin := h.shift (transaction_in hmessage htransaction)
      dsimp only
      rw [sliceData_eq hin, pure_bind]
      cases hinfo : limitedDecode UpdateOneofLimitedDecodeTransactionInfo.mergeField .default
          (slice data (transaction.shift range.start)) with
      | error e => rfl
      | ok txInfo =>
        rw [ofDecode_ok, liftExcept_ok_bind, ok_bind]
        cases herr : txInfo.err with
        | none => rfl
        | some err =>
          have herrIn := hin.shift ((UpdateOneofLimitedDecodeTransactionInfo.inInfo_of_decode hinfo).err err herr)
          dsimp only [Option.mapM]
          rw [sliceData_eq herrIn, pure_bind]
          cases gen.transactionError (slice data (err.shift (transaction.shift range.start).start)) with
          | error e => rfl
          | ok error => rfl

/-- A kind of which only the nested message is sliced. -/
theorem parseUpdateChecked_eq {α : Type} {r : Except MessageParseError α} (h : range.In data) :
    (sliceData data range >>= fun _ => liftExcept r) = .ok r := by
  rw [sliceData_eq h, pure_bind]
  exact liftExcept_eq r

/-- The parser with its slices is the parser: none of them is out of range, whatever the bytes are. -/
theorem parseChecked_eq (gen : Generated) (data : Bytes) : parseChecked gen data = .ok (parse gen data) := by
  unfold parseChecked parse
  cases hupdate : limitedDecode SubscribeUpdateLimitedDecode.mergeField .default data with
  | error e => rfl
  | ok update =>
    rw [ofDecode_ok, liftExcept_ok_bind, ok_bind]
    cases update.createdAt with
    | none => rfl
    | some createdAt =>
      dsimp only
      cases honeof : update.updateOneof with
      | none =>
        dsimp only
        split
        · exact liftExcept_eq _
        · rfl
      | some oneof =>
        obtain ⟨kind, range⟩ := oneof
        have hin := (isUpdateRange hupdate honeof).1
        cases kind with
        | transactionStatus => rfl
        | block => rfl
        | ping => rfl
        | pong => rfl
        | transaction => exact (parseTransactionChecked_eq hin).trans (liftExcept_eq _)
        | slot => exact parseUpdateChecked_eq hin
        | account => exact parseUpdateChecked_eq hin
        | entry => exact parseUpdateChecked_eq hin
        | blockMeta => exact parseUpdateChecked_eq hin
        | blockFooter => exact parseUpdateChecked_eq hin
        | entryUpdateParent => exact parseUpdateChecked_eq hin

/-- A message comes from the nested message of its update, or from an update that only this repository has. -/
theorem parse_eq_ok {msg : Message} (h : parse gen data = .ok msg) :
    ∃ update, limitedDecode SubscribeUpdateLimitedDecode.mergeField .default data = .ok update ∧
      ((∃ kind range createdAt, update.updateOneof = some ⟨kind, range⟩ ∧
          parseUpdate gen data createdAt ⟨kind, range⟩ = .ok msg) ∨
        (update.updateOneof = none ∧ ∃ richat, Message.parseRichat gen richat .limited = .ok msg)) := by
  unfold parse at h
  cases hupdate : limitedDecode SubscribeUpdateLimitedDecode.mergeField .default data with
  | error e =>
    rw [hupdate] at h
    cases h
  | ok update =>
    refine ⟨update, rfl, ?_⟩
    rw [hupdate, ofDecode_ok, ok_bind] at h
    cases hcreatedAt : update.createdAt with
    | none =>
      rw [hcreatedAt] at h
      cases h
    | some createdAt =>
      rw [hcreatedAt] at h
      dsimp only at h
      cases honeof : update.updateOneof with
      | none =>
        rw [honeof] at h
        dsimp only at h
        split at h
        · obtain ⟨richat, -, h⟩ := bind_eq_ok.mp h
          exact .inr ⟨rfl, richat, h⟩
        · cases h
      | some oneof =>
        obtain ⟨kind, range⟩ := oneof
        rw [honeof] at h
        refine .inl ⟨kind, range, createdAt, rfl, ?_⟩
        cases kind <;> exact h

end MessageParserLimited

/-! ### Places of a part are places of the buffer -/

section

variable {kind : UpdateKind} {update : SubscribeUpdateLimitedDecode} {inner : Range}

theorem standsAt_slice (h : range.In data) : StandsAt data range.start (slice data range) :=
  ⟨data.take range.start, (data.drop range.start).drop (range.stop - range.start), by
    rw [slice, List.take_append_drop, List.take_append_drop], by
    obtain ⟨hle, hstop⟩ := h
    rw [List.length_take]
    omega⟩

theorem Range.In.mono {bytes : Bytes} (h : range.In bytes) (hle : bytes.length ≤ data.length) : range.In data :=
  ⟨h.1, h.2.trans hle⟩

theorem Range.InField.shift {body : Bytes} {tag : ℕ} (h : inner.InField body 0 tag) (offset : ℕ) :
    (inner.shift offset).InField body offset tag := by
  intro hlt
  simp only [Range.shift] at hlt
  obtain ⟨content, after, hmessage, hwithin⟩ := h (by omega)
  have hle := hwithin (by omega)
  refine ⟨content, after, hmessage, fun _ => ?_⟩
  simp only [Range.shift] at hle ⊢
  omega

theorem Range.In.within (hinner : inner.In (slice data range)) (h : range.In data) :
    (inner.shift range.start).Within range := by
  have hlen := length_slice h
  obtain ⟨hle, hstop⟩ := h
  obtain ⟨hle', hstop'⟩ := hinner
  intro _
  simp only [Range.shift]
  omega

theorem VarintStands.stop_le {buffer : Bytes} {offset stop : ℕ} (h : VarintStands buffer offset stop) :
    stop ≤ buffer.length := by
  obtain ⟨n, rest, -, hstop⟩ := h
  omega

theorem VarintStands.lt {buffer : Bytes} {offset stop : ℕ} (h : VarintStands buffer offset stop) :
    offset < stop := by
  obtain ⟨n, rest, hvar, hstop⟩ := h
  obtain ⟨part, hdrop, hne, -, -⟩ := decodeVarint_part hvar
  have hlen := congrArg List.length hdrop
  have hpos := List.length_pos_iff.mpr hne
  rw [List.length_drop, List.length_append] at hlen
  omega

theorem VarintStands.shift {offset stop : ℕ} (h : VarintStands (slice data range) offset stop) (hin : range.In data) :
    VarintStands data (offset + range.start) (stop + range.start) := by
  have hlt := h.lt
  obtain ⟨n, rest, hvar, hstop⟩ := h
  obtain ⟨pre, post, hdata, hpre⟩ := standsAt_slice hin
  generalize slice data range = part at hdata hvar hstop
  have hdrop : data.drop (offset + range.start) = part.drop offset ++ post := by
    rw [hdata, Nat.add_comm, ← hpre, List.drop_length_add_append, List.drop_append_of_le_length (by omega)]
  refine ⟨n, rest ++ post, ?_, ?_⟩
  · rw [hdrop]
    exact decodeVarint_append hvar post
  · have hlen := congrArg List.length hdata
    simp only [List.length_append] at hlen ⊢
    omega

/-- What the bytes must be for the kind of the update. -/
theorem sound_iff (hdecode : limitedDecode SubscribeUpdateLimitedDecode.mergeField .default data = .ok update)
    (honeof : update.updateOneof = some ⟨kind, range⟩) : Sound data ↔
      (kind = .slot → ∀ text rest, LastMessage (· = 4) (slice data range) 4 text rest →
        (place (slice data range).length text rest).Within range ∧
          IsUtf8 (slice data (place (slice data range).length text rest))) ∧
      (kind = .account → ∃ account rest, HasMessage (slice data range) 1 account rest ∧ HasTag account 7) ∧
      (kind = .transaction → ∀ info rest, LastMessage (· = 1) (slice data range) 1 info rest →
        HasTag info 1 ∧ Framed info) := by
  -- the update that is found is the only one
  have hunique : ∀ {kind' body after}, IsUpdate data kind' body after →
      kind = kind' ∧ range = place data.length body after ∧ slice data range = body := by
    intro kind' body after h
    obtain ⟨hfound, hslice⟩ := h.eq_slice hdecode
    obtain ⟨rfl, rfl⟩ := UpdateOneofLimitedDecode.mk.inj (Option.some.inj (honeof.symm.trans hfound))
    exact ⟨rfl, rfl, hslice⟩
  obtain ⟨body, after, hupdate, hrange⟩ := (updateOneof_iff hdecode).mp honeof
  obtain ⟨-, -, hbody⟩ := hunique hupdate
  constructor
  · intro h
    rw [hbody, hrange]
    refine ⟨?_, ?_, ?_⟩
    · rintro rfl
      exact h.slot body after hupdate
    · rintro rfl
      exact h.account body after hupdate
    · rintro rfl
      exact h.transaction body after hupdate
  · rintro ⟨hslot, haccount, htransaction⟩
    refine ⟨fun body' after' h => ?_, fun body' after' h => ?_, fun body' after' h => ?_⟩
    · obtain ⟨hkind, hrange', rfl⟩ := hunique h
      rw [← hrange']
      exact hslot hkind
    · obtain ⟨hkind, -, rfl⟩ := hunique h
      exact haccount hkind
    · obtain ⟨hkind, -, rfl⟩ := hunique h
      exact htransaction hkind

end

namespace MessageParserLimited

variable {msg : Message}

/-! ### Slots -/

/-- The text is looked for at its place in the nested message. -/
theorem contained_slot (hrange : IsUpdateRange data .slot range) (h : parseSlot data createdAt range = .ok msg) :
    Contained data msg ↔ ∀ text rest, LastMessage (· = 4) (slice data range) 4 text rest →
      (place (slice data range).length text rest).Within range ∧
        IsUtf8 (slice data (place (slice data range).length text rest)) := by
  obtain ⟨message, hmessage, h⟩ := bind_eq_ok.mp h
  have hdecode : limitedDecode UpdateOneofLimitedDecodeSlot.mergeField .default (slice data range) = .ok message :=
    ofDecode_eq_ok.mp hmessage
  have hdead : ∀ {text}, message.deadError = some text ↔ _ := UpdateOneofLimitedDecodeSlot.deadError_iff hdecode
  cases hstatus : slotStatusTryFrom message.status with
  | none =>
    rw [hstatus] at h
    cases h
  | some status =>
    rw [hstatus] at h
    obtain rfl := Except.ok.inj h
    constructor
    · intro hcontained text rest hlast
      exact (hcontained.deadError _ (hdead.mpr ⟨text, rest, hlast, rfl⟩)).2
    · intro htext
      have hin : ∀ text ∈ message.deadError, text.In data := by
        intro text hmem
        obtain ⟨content, rest, hlast, rfl⟩ := hdead.mp hmem
        have hlen := length_slice hrange.1
        obtain ⟨-, hstop⟩ := hrange.1
        exact (place_in hlast.2.1.suffix).mono (by omega)
      refine ⟨rfl, hrange, fun text hmem => ⟨hin text hmem, ?_⟩, fun text hmem => ⟨_, indexRange_eq (hin text hmem)⟩⟩
      obtain ⟨content, rest, hlast, rfl⟩ := hdead.mp hmem
      exact htext content rest hlast

/-! ### Accounts -/

theorem indexVarint_succeeds {offset stop : ℕ} (h : VarintStands data offset stop) :
    Succeeds (indexVarint data offset) := by
  have hlt := h.lt
  have hle := h.stop_le
  obtain ⟨n, rest, hvar, -⟩ := h
  rw [indexVarint, if_pos (by omega), varintAt, hvar]
  exact ⟨_, rfl⟩

/-- A nested message does not start where the message does. -/
theorem not_inField_start {body : Bytes} {start stop tag : ℕ} (hstop : start < stop) :
    ¬ Range.InField ⟨start, stop⟩ body start tag := by
  intro h
  obtain ⟨content, after, ⟨field, buf, hfield, hkey, hcontent⟩, hwithin⟩ := h hstop
  have hlt := length_lt_of_key hkey
  have hle := hfield.suffix.length_le
  obtain ⟨len, rfl, hne, -, -⟩ := decodeVarint_part hcontent
  have hstart := (hwithin hstop).1
  simp only [place, Range.shift, List.length_append] at hlt hle hstart
  omega

/-- What an account is made of. -/
theorem parseAccount_eq_ok (h : parseAccount data createdAt range = .ok msg) : ∃ message account,
    limitedDecode UpdateOneofLimitedDecodeAccount.mergeField .default (slice data range) = .ok message ∧
    UpdateOneofLimitedDecodeAccount.Placed (slice data range) message ∧ message.account = some account ∧
    msg = .account (.limited
      { pubkey := message.pubkey
        owner := message.owner
        lamports := message.lamports
        executable := message.executable
        rentEpoch := message.rentEpoch
        data := message.data.shift range.start
        txnSignatureOffset := message.txnSignatureOffset.map (· + range.start)
        writeVersion := message.writeVersion + range.start
        slot := message.slot
        isStartup := message.isStartup
        bankId := message.bankId
        createdAt
        buffer := data
        accountOffset := account + range.start
        range }) := by
  obtain ⟨message, hmessage, h⟩ := bind_eq_ok.mp h
  have hdecode := ofDecode_eq_ok.mp hmessage
  cases haccount : message.account with
  | none =>
    rw [haccount] at h
    cases h
  | some account =>
    rw [haccount] at h
    exact ⟨message, account, hdecode, UpdateOneofLimitedDecodeAccount.placed_of_merges .nil
      (UpdateOneofLimitedDecodeAccount.consumes.mergeAll hdecode) (UpdateOneofLimitedDecodeAccount.placed_default _),
      haccount, (Except.ok.inj h).symm⟩

/-- The account has a write version. -/
theorem contained_account (hrange : IsUpdateRange data .account range)
    (h : parseAccount data createdAt range = .ok msg) : Contained data msg ↔
      ∃ account rest, HasMessage (slice data range) 1 account rest ∧ HasTag account 7 := by
  obtain ⟨message, account, hdecode, hplaced, haccount, rfl⟩ := parseAccount_eq_ok h
  rw [← UpdateOneofLimitedDecodeAccount.writeVersion_iff hdecode]
  have hlen := length_slice hrange.1
  constructor
  · intro hcontained hzero
    obtain ⟨stop, hlt, -, hinField⟩ := hcontained.writeVersion
    simp only [hzero, Nat.zero_add] at hlt hinField
    exact not_inField_start hlt hinField
  · intro hversion
    obtain ⟨stop, hstands⟩ := hplaced.account account haccount
    obtain ⟨vstop, hlt, hvar, hinField⟩ := hplaced.writeVersion hversion
    have hdata := hrange.1.shift hplaced.data.1
    have hsignature : ∀ offset ∈ message.txnSignatureOffset.map (· + range.start),
        Range.In ⟨offset, offset + signatureBytes⟩ data ∧
          Range.InField ⟨offset, offset + signatureBytes⟩ (slice data range) range.start 1 := by
      intro offset hmem
      obtain ⟨inner, hinner, rfl⟩ := Option.map_eq_some_iff.mp hmem
      obtain ⟨hin, hfield⟩ := hplaced.txnSignature inner hinner
      have hshift : (Range.shift ⟨inner, inner + signatureBytes⟩ range.start) =
          ⟨inner + range.start, inner + range.start + signatureBytes⟩ := by
        rw [Range.shift, Nat.add_right_comm]
      rw [← hshift]
      exact ⟨hrange.1.shift hin, hfield.shift range.start⟩
    refine ⟨rfl, hrange, ⟨_, hstands.shift hrange.1, fun _ => ?_⟩, ⟨hdata, hplaced.data.2.shift range.start⟩,
      hsignature, ⟨_, ?_, hvar.shift hrange.1, hinField.shift range.start⟩, ⟨_, indexRange_eq hdata⟩,
      indexVarint_succeeds (hvar.shift hrange.1), fun offset hmem => ⟨_, indexRange_eq (hsignature offset hmem).1⟩⟩
    · have hle := hstands.stop_le
      obtain ⟨hrangeLe, -⟩ := hrange.1
      dsimp only
      omega
    · dsimp only
      omega

/-! ### Transactions -/

/-- What a transaction is made of. -/
theorem parseTransaction_eq_ok (h : parseTransaction gen data createdAt range = .ok msg) :
    ∃ message transaction txInfo error,
      limitedDecode UpdateOneofLimitedDecodeTransaction.mergeField .default (slice data range) = .ok message ∧
      message.transaction = some transaction ∧
      limitedDecode UpdateOneofLimitedDecodeTransactionInfo.mergeField .default
        (slice data (transaction.shift range.start)) = .ok txInfo ∧
      msg = .transaction (.limited
        { signatureOffset := txInfo.signatureOffset.map ((transaction.shift range.start).start + ·)
          error
          accountKeys := txInfo.accountKeys
          isVote := txInfo.isVote
          index := txInfo.index
          transactionRange := transaction.shift range.start
          slot := message.slot
          bankId := message.bankId
          createdAt
          buffer := data
          range }) := by
  obtain ⟨message, hmessage, h⟩ := bind_eq_ok.mp h
  cases htransaction : message.transaction with
  | none =>
    rw [htransaction] at h
    cases h
  | some transaction =>
    rw [htransaction] at h
    obtain ⟨txInfo, hinfo, h⟩ := bind_eq_ok.mp h
    obtain ⟨error, -, h⟩ := bind_eq_ok.mp h
    obtain rfl := Except.ok.inj h
    exact ⟨message, transaction, txInfo, error, ofDecode_eq_ok.mp hmessage, htransaction, ofDecode_eq_ok.mp hinfo, rfl⟩

/-- The transaction has a signature, and its nested messages are made of whole fields. -/
theorem contained_transaction (hrange : IsUpdateRange data .transaction range)
    (h : parseTransaction gen data createdAt range = .ok msg) : Contained data msg ↔
      ∀ info rest, LastMessage (· = 1) (slice data range) 1 info rest → HasTag info 1 ∧ Framed info := by
  obtain ⟨message, transaction, txInfo, error, hdecode, htransaction, hinfo, rfl⟩ := parseTransaction_eq_ok h
  have hin := hrange.1.shift (transaction_in hdecode htransaction)
  have hplaces := UpdateOneofLimitedDecodeTransactionInfo.inInfo_of_decode hinfo
  -- the info that is read is the last one
  have hlast : (∀ info rest, LastMessage (· = 1) (slice data range) 1 info rest → HasTag info 1 ∧ Framed info) ↔
      HasTag (slice data (transaction.shift range.start)) 1 ∧
        Framed (slice data (transaction.shift range.start)) := by
    have hiff : ∀ {range'}, message.transaction = some range' ↔ _ :=
      UpdateOneofLimitedDecodeTransaction.transaction_iff hdecode
    have hslice : ∀ {info rest}, LastMessage (· = 1) (slice data range) 1 info rest →
        slice data (transaction.shift range.start) = info := by
      intro info rest hlast
      obtain rfl := Option.some.inj (htransaction.symm.trans (hiff.mpr ⟨info, rest, hlast, rfl⟩))
      exact slice_place_shift (standsAt_slice hrange.1) hlast.2.1.suffix
    obtain ⟨info, rest, hinfoLast, -⟩ := hiff.mp htransaction
    constructor
    · intro hall
      rw [hslice hinfoLast]
      exact hall info rest hinfoLast
    · intro hgood info' rest' hlast'
      rw [← hslice hlast']
      exact hgood
  have hsignature : ∀ offset ∈ txInfo.signatureOffset.map ((transaction.shift range.start).start + ·),
      Range.In ⟨offset, offset + signatureBytes⟩ data ∧
        Range.Within ⟨offset, offset + signatureBytes⟩ (transaction.shift range.start) := by
    intro offset hmem
    obtain ⟨inner, hinner, rfl⟩ := Option.map_eq_some_iff.mp hmem
    have hinfoIn := hplaces.signature inner hinner
    have hshift : Range.shift ⟨inner, inner + signatureBytes⟩ (transaction.shift range.start).start =
        ⟨(transaction.shift range.start).start + inner,
          (transaction.shift range.start).start + inner + signatureBytes⟩ := by
      simp only [Range.shift, Range.mk.injEq]
      omega
    rw [← hshift]
    exact ⟨hin.shift hinfoIn, hinfoIn.within hin⟩
  have hexact : ∀ {info}, limitedDecode UpdateOneofLimitedDecodeTransactionInfo.mergeFieldExact .default
      (slice data (transaction.shift range.start)) = .ok info ↔ _ :=
    UpdateOneofLimitedDecodeTransactionInfo.exact_iff
  rw [hlast]
  constructor
  · intro hcontained
    obtain ⟨info, hinfo'⟩ := hcontained.exact
    refine ⟨(UpdateOneofLimitedDecodeTransactionInfo.signature_iff hinfo').mp fun hnone => ?_, (hexact.mp hinfo').2⟩
    obtain rfl := Except.ok.inj (hinfo.symm.trans (hexact.mp hinfo').1)
    have haccessors := hcontained.accessors
    simp [indexSignature, hnone] at haccessors
  · rintro ⟨htag, hframed⟩
    have hinfo' := hexact.mpr ⟨hinfo, hframed⟩
    refine ⟨rfl, hrange, ⟨hin, ?_⟩, hsignature, ⟨txInfo, hinfo'⟩, ?_, ?_⟩
    · obtain ⟨content, after, hlast', rfl⟩ :=
        (UpdateOneofLimitedDecodeTransaction.transaction_iff hdecode).mp htransaction
      exact fun _ => ⟨content, after, hlast'.2.1, fun _ => ⟨le_rfl, le_rfl⟩⟩
    · intro info hinfo₂ err herr
      obtain rfl := Except.ok.inj (hinfo.symm.trans hinfo₂)
      refine ⟨hin.shift (hplaces.err err herr), ?_⟩
      exact UpdateOneofLimitedDecodeTransactionInfo.err_inField .nil
        (UpdateOneofLimitedDecodeTransactionInfo.consumes.mergeAll hinfo')
        (by simp [UpdateOneofLimitedDecodeTransactionInfo.default]) err herr
    · have hsome := (UpdateOneofLimitedDecodeTransactionInfo.signature_iff hinfo').mpr htag
      obtain ⟨offset, hoffset⟩ := Option.ne_none_iff_exists'.mp hsome
      simp only [indexSignature, hoffset, Option.map_some]
      refine ⟨_, indexRange_eq (hsignature _ ?_).1⟩
      simp [hoffset]

theorem parseRichat_eq_ok {richat : Proto.SubscribeUpdateRichat} {encoding : MessageParserEncoding}
    (h : Message.parseRichat gen richat encoding = .ok msg) :
    (∃ footer, msg = .blockFooter footer) ∨ ∃ parent, msg = .entryUpdateParent parent := by
  unfold Message.parseRichat at h
  cases hcreatedAt : richat.createdAt with
  | none =>
    rw [hcreatedAt] at h
    cases h
  | some createdAt =>
    rw [hcreatedAt] at h
    dsimp only at h
    split at h
    · obtain ⟨footer, -, hfooter⟩ := bind_eq_ok.mp h
      exact .inl ⟨_, (Except.ok.inj hfooter).symm⟩
    · exact .inr ⟨_, (Except.ok.inj h).symm⟩
    · cases h
    · cases h

/-- A message of another kind than an account or a transaction. -/
theorem inBuffer_other {kind : UpdateKind} (haccount : kind ≠ .account) (htransaction : kind ≠ .transaction)
    (h : parseUpdate gen data createdAt ⟨kind, range⟩ = .ok msg) : msg.InBuffer := by
  cases kind with
  | account => exact absurd rfl haccount
  | transaction => exact absurd rfl htransaction
  | transactionStatus => cases h
  | block => cases h
  | ping => cases h
  | pong => cases h
  | slot =>
    obtain ⟨message, -, hslot⟩ := bind_eq_ok.mp h
    cases hstatus : slotStatusTryFrom message.status with
    | none =>
      rw [hstatus] at hslot
      cases hslot
    | some status =>
      rw [hstatus] at hslot
      obtain rfl := Except.ok.inj hslot
      trivial
  | entry =>
    obtain ⟨entry, -, hentry⟩ := bind_eq_ok.mp h
    obtain rfl := Except.ok.inj hentry
    trivial
  | blockMeta =>
    obtain ⟨blockMeta, -, hmeta⟩ := bind_eq_ok.mp h
    cases hheight : blockMeta.blockHeight with
    | none =>
      rw [hheight] at hmeta
      cases hmeta
    | some blockHeight =>
      rw [hheight] at hmeta
      obtain rfl := Except.ok.inj hmeta
      trivial
  | blockFooter =>
    obtain ⟨footer, -, hfooter⟩ := bind_eq_ok.mp h
    obtain rfl := Except.ok.inj hfooter
    trivial
  | entryUpdateParent =>
    obtain ⟨parent, -, hparent⟩ := bind_eq_ok.mp h
    obtain rfl := Except.ok.inj hparent
    trivial

theorem inBuffer_account (hin : range.In data) (h : parseAccount data createdAt range = .ok msg) :
    msg.InBuffer := by
  obtain ⟨message, account, -, hplaced, -, rfl⟩ := parseAccount_eq_ok h
  exact hin.shift hplaced.data.1

theorem inBuffer_transaction (hin : range.In data) (h : parseTransaction gen data createdAt range = .ok msg) :
    msg.InBuffer := by
  obtain ⟨message, transaction, txInfo, error, hdecode, htransaction, hinfo, rfl⟩ := parseTransaction_eq_ok h
  have hrange := hin.shift (transaction_in hdecode htransaction)
  intro offset hmem
  obtain ⟨inner, hinner, rfl⟩ := Option.map_eq_some_iff.mp hmem
  have hsignature := hrange.shift ((UpdateOneofLimitedDecodeTransactionInfo.inInfo_of_decode hinfo).signature inner
    hinner)
  have hstop := hsignature.2
  simp only [Range.shift] at hstop ⊢
  omega

/-- What the filters ask of a parsed message is in its buffer, also where the bytes are not sound. -/
theorem inBuffer_of_parse (h : parse gen data = .ok msg) : msg.InBuffer := by
  obtain ⟨update, hupdate, ⟨kind, range, createdAt, honeof, hparse⟩ | ⟨-, richat, hparse⟩⟩ := parse_eq_ok h
  · have hin := (isUpdateRange hupdate honeof).1
    by_cases haccount : kind = .account
    · subst haccount
      exact inBuffer_account hin hparse
    · by_cases htransaction : kind = .transaction
      · subst htransaction
        exact inBuffer_transaction hin hparse
      · exact inBuffer_other haccount htransaction hparse
  · obtain ⟨footer, rfl⟩ | ⟨parent, rfl⟩ := parseRichat_eq_ok hparse
    · trivial
    · trivial

/-- What is promised of a message holds exactly if its bytes are sound. -/
theorem contained_iff (h : parse gen data = .ok msg) : Contained data msg ↔ Sound data := by
  obtain ⟨update, hupdate, ⟨kind, range, createdAt, honeof, hparse⟩ | ⟨hnone, richat, hparse⟩⟩ := parse_eq_ok h
  · rw [sound_iff hupdate honeof]
    have hrange := isUpdateRange hupdate honeof
    cases kind with
    | slot => simpa using contained_slot hrange hparse
    | account => simpa using contained_account hrange hparse
    | transaction => simpa using contained_transaction hrange hparse
    | transactionStatus => cases hparse
    | block => cases hparse
    | ping => cases hparse
    | pong => cases hparse
    | entry =>
      obtain ⟨entry, -, hentry⟩ := bind_eq_ok.mp hparse
      obtain rfl := Except.ok.inj hentry
      simpa [Contained] using hrange
    | blockMeta =>
      obtain ⟨blockMeta, -, hmeta⟩ := bind_eq_ok.mp hparse
      cases hheight : blockMeta.blockHeight with
      | none =>
        rw [hheight] at hmeta
        cases hmeta
      | some blockHeight =>
        rw [hheight] at hmeta
        obtain rfl := Except.ok.inj hmeta
        simpa [Contained] using hrange
    | blockFooter =>
      obtain ⟨footer, -, hfooter⟩ := bind_eq_ok.mp hparse
      obtain rfl := Except.ok.inj hfooter
      simp [Contained]
    | entryUpdateParent =>
      obtain ⟨parent, -, hparent⟩ := bind_eq_ok.mp hparse
      obtain rfl := Except.ok.inj hparent
      simp [Contained]
  · have hno : ∀ {kind body after}, ¬ IsUpdate data kind body after := by
      intro kind body after hbody
      have hsome := (hbody.eq_slice hupdate).1
      rw [hnone] at hsome
      cases hsome
    have hcontained : Contained data msg := by
      obtain ⟨footer, rfl⟩ | ⟨parent, rfl⟩ := parseRichat_eq_ok hparse
      · trivial
      · trivial
    refine iff_of_true hcontained ⟨?_, ?_, ?_⟩
    · exact fun _ _ hbody => absurd hbody hno
    · exact fun _ _ hbody => absurd hbody hno
    · exact fun _ _ hbody => absurd hbody hno

/-- The parser answers without a panic, whatever the bytes are. Of what it accepts, the places that are stored are
where they should be, and the accessors answer, exactly if the bytes are sound. -/
theorem parse_contained_iff (gen : Generated) (data : Bytes) : parseChecked gen data = .ok (parse gen data) ∧
    ∀ msg, parse gen data = .ok msg → (Contained data msg ↔ Sound data) :=
  ⟨parseChecked_eq gen data, fun _ h => contained_iff h⟩

/-- The text of a slot is taken at a place of the time of creation, where no character starts. -/
def deadSlot : Bytes := [0x5a, 4, 0x08, 0x80, 0x80, 0x01, 0x1a, 5, 0x08, 5, 0x22, 1, 0x78]

/-- An account without a write version. -/
def unversionedAccount : Bytes := [0x5a, 0, 0x12, 2, 0x0a, 0]

/-- A transaction whose nested message has one byte and is read up to the second one. -/
def overrunTransaction : Bytes := [0x5a, 0, 0x22, 6, 0x0a, 4, 0x1a, 1, 0x20, 0x01]

/-- None of them asks a generated decoder. -/
def noDecoder : Generated := Generated.reading ⟨[], none, none⟩

theorem not_isUtf8_continuation : ¬ IsUtf8 [0x80] := by
  rintro ⟨text, htext⟩
  have hvalid := text.isValidUTF8
  have hbytes : text.toByteArray = ⟨#[0x80]⟩ := by
    have harray : text.toByteArray.data = #[0x80] := Array.toList_inj.mp htext
    exact congrArg ByteArray.mk harray
  rw [hbytes] at hvalid
  revert hvalid
  decide

/-- Each of them is accepted, and what is stored points elsewhere. -/
theorem parse_escapes :
    (∃ msg, parse noDecoder deadSlot = .ok msg ∧ ¬ Contained deadSlot msg) ∧
      (∃ msg, parse noDecoder unversionedAccount = .ok msg ∧ ¬ Contained unversionedAccount msg) ∧
      ∃ msg, parse noDecoder overrunTransaction = .ok msg ∧ ¬ Contained overrunTransaction msg := by
  refine ⟨⟨_, rfl, fun h => ?_⟩, ⟨_, rfl, fun h => ?_⟩, ⟨_, rfl, fun h => ?_⟩⟩
  · exact not_isUtf8_continuation (h.deadError ⟨4, 5⟩ rfl).2.2
  · obtain ⟨stop, hlt, -, hinField⟩ := h.writeVersion
    have hversion : Range.InField ⟨4, stop⟩ (slice unversionedAccount ⟨4, 6⟩) 4 1 := hinField
    exact not_inField_start hlt hversion
  · obtain ⟨info, hinfo⟩ := h.exact
    cases hinfo

end MessageParserLimited

end Richat.Filter
