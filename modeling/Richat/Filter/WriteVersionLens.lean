import Richat.Filter.WriteVersionRun

/-!
# When the updates of the write version are a lens

A message that was updated is written from its buffer, and read back with the places of the layout. So the updates are
a lens exactly for the messages that are `Movable`.
-/

namespace Richat.Filter

open Lib Lib.Protobuf MessageParserLimited LaidOut

/-! ### What is written and read back -/

section

variable {l : Layout} {pre len₀ version₀ len version data body : Bytes} {read : UpdateOneofLimitedDecodeAccount}
  {createdAt : Proto.Timestamp} {range : Range} {msg : LimitedAccount} {gen : Generated}

theorem LaidOut.encoded (h : LaidOut l pre len version msg) : (MessageAccount.limited msg).encoded =
    .ok (bytesEncode 2 (l.body len version) ++ message.encode 11 msg.createdAt) := by
  obtain ⟨hin, hslice⟩ : msg.range.In msg.buffer ∧ slice msg.buffer msg.range = l.body len version := by
    have hbody := h.stands.right
    rw [Nat.zero_add] at hbody
    have hlength := hbody.length_le
    rw [h.range]
    exact ⟨⟨by dsimp only; omega, hlength⟩, slice_eq hbody rfl⟩
  have hrange := indexRange_eq hin
  rw [hslice] at hrange
  refine bind_eq_ok.mpr ⟨_, bind_eq_ok.mpr ⟨_, bind_eq_ok.mpr ⟨_, hrange, rfl⟩, rfl⟩, ?_⟩
  rfl

/-- The time of the creation is short. -/
theorem length_createdAt_le (createdAt : Proto.Timestamp) : (message.encode 11 createdAt).length ≤ 33 := by
  have hvarint : ∀ value : UInt64, (encodeVarint value.toNat).length ≤ 10 := fun value =>
    (IsVarint.encode value.toNat_lt).length_le
  have hseconds : (plain int64.encode 0 1 createdAt.seconds).length ≤ 11 := by
    have hle := hvarint createdAt.seconds.toUInt64
    have hkey : (encodeKey 1 .varint).length = 1 := rfl
    unfold plain int64.encode varintEncode
    split
    · exact Nat.zero_le _
    · rw [List.length_append]
      omega
  have hnanos : (plain int32.encode 0 2 createdAt.nanos).length ≤ 11 := by
    have hle := hvarint createdAt.nanos.toInt64.toUInt64
    have hkey : (encodeKey 2 .varint).length = 1 := rfl
    unfold plain int32.encode varintEncode
    split
    · exact Nat.zero_le _
    · rw [List.length_append]
      omega
  have hraw : (WireMessage.encodeRaw createdAt).length ≤ 22 := by
    have hlength : (WireMessage.encodeRaw createdAt).length = _ := List.length_append
    omega
  have hencodedLen : WireMessage.encodedLen createdAt = (WireMessage.encodeRaw createdAt).length := rfl
  have hlen : (encodeVarint (WireMessage.encodedLen createdAt)).length ≤ 10 := by
    rw [hencodedLen]
    exact (IsVarint.encode (by omega)).length_le
  have hkey : (encodeKey 11 .lengthDelimited).length = 1 := rfl
  rw [message.encode, List.length_append, List.length_append]
  omega

/-- The update is read back. -/
theorem parse_written (hbody : body.length < 2 ^ 64 - 64) :
    parse gen (bytesEncode 2 body ++ message.encode 11 createdAt) =
      parseAccount (bytesEncode 2 body ++ message.encode 11 createdAt) createdAt
        (place (bytesEncode 2 body ++ message.encode 11 createdAt).length body (message.encode 11 createdAt)) := by
  have hcreatedAt := length_createdAt_le createdAt
  have hlen : (bytesEncode 2 body ++ message.encode 11 createdAt).length < 2 ^ 64 := by
    have hvarint : (encodeVarint body.length).length ≤ 10 := (IsVarint.encode (by omega)).length_le
    have hkey : (encodeKey 2 .lengthDelimited).length = 1 := rfl
    rw [bytesEncode, List.length_append, List.length_append, List.length_append]
    omega
  have haccount : Reads (SubscribeUpdateLimitedDecode.mergeField
      (bytesEncode 2 body ++ message.encode 11 createdAt).length) (bytesEncode 2 body)
      (optional message.encode 11 (some createdAt) ++ []) .default
      ⟨some ⟨.account, place (bytesEncode 2 body ++ message.encode 11 createdAt).length body
        (message.encode 11 createdAt)⟩, none, false⟩ := by
    rw [List.append_nil]
    refine .bytes (by decide) (by decide) fun hlen => ?_
    simp only [SubscribeUpdateLimitedDecode.mergeField, if_neg (show ¬ 2 = 1 by decide),
      show UpdateKind.ofTag 2 = some .account from rfl, UpdateOneofLimitedDecode.merge, delimitedRange_encode hlen]
    rfl
  have hreads := haccount.append (reads_createdAt _ (some createdAt) [] rfl)
  have hdecode : limitedDecode SubscribeUpdateLimitedDecode.mergeField .default
      (bytesEncode 2 body ++ message.encode 11 createdAt) = _ := hreads.mergeAll_eq hlen
  rw [parse, hdecode]
  rfl

theorem parseAccount_of_decode {account : ℕ}
    (h : limitedDecode UpdateOneofLimitedDecodeAccount.mergeField .default (slice data range) = .ok read)
    (haccount : read.account = some account) : parseAccount data createdAt range =
      .ok (.account (.limited (.ofRead data createdAt range read account))) := by
  rw [parseAccount, h, ofDecode_ok, ok_bind, haccount]
  rfl

end

section

open UpdateOneofLimitedDecodeAccount (signatureRange)

variable {l : Layout} {pre len₀ version₀ len version data : Bytes} {read : UpdateOneofLimitedDecodeAccount}
  {createdAt : Proto.Timestamp} {range : Range} {msg : LimitedAccount} {gen : Generated}

theorem signatureRange_shift (offset n : ℕ) : (signatureRange offset).shift n = signatureRange (offset + n) := by
  rw [signatureRange, Range.shift, Nat.add_right_comm]
  rfl

theorem Layout.Stands.moveRange_signature {offset : ℕ} (h : l.Stands len₀ version₀ (signatureRange offset))
    (hfits : l.Fits len₀ version₀) : l.moveRange len₀ version₀ len version (signatureRange offset) =
      signatureRange (l.moves len₀ version₀ len version offset) := by
  have hlenPos := hfits.len.pos
  have hversionPos := hfits.version.choose_spec.pos
  have hoffset : l.versionOffset len₀ = l.head.length + len₀.length + l.before.length := rfl
  obtain ⟨-, hcases⟩ := h
  unfold Layout.moveRange
  simp only [signatureRange] at hcases ⊢
  refine congrArg (Range.mk _) ?_
  rcases hcases with hhead | ⟨hstart, hstop⟩ | ⟨hstart, hstop⟩
  · rw [l.moves_head (by omega), l.moves_head (by omega)]
  · rw [l.moves_before (by omega) (by omega), l.moves_before (by omega) (by omega)]
    omega
  · rw [l.moves_after (by omega), l.moves_after (by omega)]
    omega

/-- What is read back of a laid out message reads as the parsed one. -/
theorem Reached.read_back {account : ℕ}
    (h : Reached l pre len₀ version₀ read (.ofRead data createdAt range read account) len version msg)
    (hof : l.Of len₀ version₀ read) (hbound : l.Bounded) : ∃ msg',
      parse gen (bytesEncode 2 (l.body len version) ++ message.encode 11 msg.createdAt) =
          .ok (.account (.limited msg')) ∧
        ReadsLike l len₀ version₀ read (.ofRead data createdAt range read account) version msg' := by
  have hfits := h.laidOut.fits
  have hbody : (l.body len version).length < 2 ^ 64 - 64 := by
    have hlen := hfits.len.length_le
    have hversion := hfits.version.choose_spec.length_le
    have hlength := l.length_body len version
    unfold Layout.Bounded at hbound
    omega
  have hsuffix : l.body len version ++ message.encode 11 msg.createdAt <:+
      bytesEncode 2 (l.body len version) ++ message.encode 11 msg.createdAt :=
    ⟨encodeKey 2 .lengthDelimited ++ encodeVarint (l.body len version).length, by
      simp only [bytesEncode, List.append_assoc]⟩
  have hstands := standsAt_place hsuffix
  have hslice := slice_place hsuffix
  have hdecode := hof.decode len version hfits
  have haccount : (read.relocate (l.moves len₀ version₀ len version)).account = some l.head.length := by
    simp only [UpdateOneofLimitedDecodeAccount.relocate, hof.account, Option.map_some, l.moves_head le_rfl]
  rw [← hslice] at hdecode
  rw [parse_written hbody, parseAccount_of_decode hdecode haccount]
  refine ⟨_, rfl, ?_, ?_, ?_, ?_⟩
  · have hcreatedAt : msg.values.createdAt = createdAt := congrArg LimitedAccount.createdAt h.values
    rw [show msg.createdAt = createdAt from hcreatedAt]
    rfl
  · obtain ⟨hin, heq⟩ := hof.data.moveRange hof.fits len version
    obtain ⟨hin', heq'⟩ := slice_shift hstands hin
    exact ⟨hin', heq'.trans heq⟩
  · simp only [LimitedAccount.ofRead, UpdateOneofLimitedDecodeAccount.relocate]
    cases hoffset : read.txnSignatureOffset with
    | none => exact .none
    | some offset =>
      have hoffsetStands := hof.signature offset hoffset
      obtain ⟨hin, heq⟩ := hoffsetStands.moveRange hof.fits len version
      rw [hoffsetStands.moveRange_signature hof.fits] at hin heq
      obtain ⟨hin', heq'⟩ := slice_shift hstands hin
      rw [signatureRange_shift] at hin' heq'
      exact .some ⟨hin', heq'.trans heq⟩
  · have hversion : StandsAt (l.body len version) (l.versionOffset len) version :=
      ⟨l.head ++ (len ++ l.before), l.after ++ l.tail, by
        simp only [Layout.body, Layout.content, List.append_assoc], by
        simp only [Layout.versionOffset, List.length_append, Nat.add_assoc]⟩
    have hlenPos := hof.fits.len.pos
    have hoffset₀ : l.versionOffset len₀ = l.head.length + len₀.length + l.before.length := rfl
    have hoffset : l.versionOffset len = l.head.length + len.length + l.before.length := rfl
    have hmoved : l.moves len₀ version₀ len version read.writeVersion = l.versionOffset len := by
      rw [hof.writeVersion, l.moves_before (by omega) le_rfl]
      omega
    have hversionStands := hstands.trans hversion
    rw [← hmoved] at hversionStands
    exact hversionStands

end

/-! ### The parsed message -/

section

open UpdateOneofLimitedDecodeAccount (signatureRange)

variable {l : Layout} {pre len₀ version₀ len version data : Bytes} {read : UpdateOneofLimitedDecodeAccount}
  {createdAt : Proto.Timestamp} {range : Range} {msg : LimitedAccount} {m : MessageAccount} {gen : Generated}
  {account : ℕ}

/-- An account comes from the nested message of an account. -/
theorem kind_of_account {kind : UpdateKind} (h : parseUpdate gen data createdAt ⟨kind, range⟩ = .ok (.account m)) :
    kind = .account := by
  cases kind with
  | account => rfl
  | slot =>
    obtain ⟨message, -, hslot⟩ := bind_eq_ok.mp h
    split at hslot
    · cases hslot
    · cases hslot
  | transaction =>
    obtain ⟨_, _, _, _, -, -, -, htransaction⟩ := parseTransaction_eq_ok h
    cases htransaction
  | transactionStatus => cases h
  | entry =>
    obtain ⟨entry, -, hentry⟩ := bind_eq_ok.mp h
    cases hentry
  | blockMeta =>
    obtain ⟨blockMeta, -, hmeta⟩ := bind_eq_ok.mp h
    split at hmeta
    · cases hmeta
    · cases hmeta
  | block => cases h
  | ping => cases h
  | pong => cases h
  | blockFooter =>
    obtain ⟨footer, -, hfooter⟩ := bind_eq_ok.mp h
    cases hfooter
  | entryUpdateParent =>
    obtain ⟨parent, -, hparent⟩ := bind_eq_ok.mp h
    cases hparent

theorem exists_read (h : parse gen data = .ok (.account m)) : ∃ range createdAt read account, range.In data ∧
    limitedDecode UpdateOneofLimitedDecodeAccount.mergeField .default (slice data range) = .ok read ∧
    read.account = some account ∧ m = .limited (.ofRead data createdAt range read account) := by
  obtain ⟨update, hupdate, ⟨kind, range, createdAt, honeof, hparse⟩ | ⟨-, richat, hparse⟩⟩ := parse_eq_ok h
  · obtain rfl := kind_of_account hparse
    obtain ⟨read, account, hdecode, -, haccount, hmsg⟩ := parseAccount_eq_ok hparse
    exact ⟨range, createdAt, read, account, (isUpdateRange hupdate honeof).1, hdecode, haccount,
      Message.account.inj hmsg⟩
  · obtain ⟨footer, hmsg⟩ | ⟨parent, hmsg⟩ := parseRichat_eq_ok hparse
    · cases hmsg
    · cases hmsg

/-- The parsed message is laid out. -/
theorem Layout.Of.reached (hof : l.Of len₀ version₀ read) (hin : range.In data)
    (hbody : slice data range = l.body len₀ version₀) (haccount : read.account = some account)
    (createdAt : Proto.Timestamp) : Reached l (data.take range.start) len₀ version₀ read
      (.ofRead data createdAt range read account) len₀ version₀ (.ofRead data createdAt range read account) := by
  have hpre : (data.take range.start).length = range.start := by
    obtain ⟨hle, hstop⟩ := hin
    rw [List.length_take]
    omega
  have hlength := length_slice hin
  rw [hbody] at hlength
  have hstands : StandsAt data 0 (data.take range.start ++ l.body len₀ version₀) := by
    rw [← hbody, slice]
    refine ⟨[], (data.drop range.start).drop (range.stop - range.start), ?_, rfl⟩
    rw [List.nil_append, List.append_assoc, List.take_append_drop, List.take_append_drop]
  obtain rfl := Option.some.inj (haccount.symm.trans hof.account)
  refine ⟨⟨hof.fits, hstands, ?_, ?_, ?_⟩, Nat.le_succ _, rfl, ?_, ?_⟩
  · rw [hpre]
    exact Nat.add_comm ..
  · rw [hpre, ← hof.writeVersion]
    exact Nat.add_comm ..
  · rw [hpre, hlength, Nat.add_sub_cancel' hin.1]
    rfl
  · have htracks := Tracks.start (data.take range.start) hof.data
    rw [hpre] at htracks
    exact htracks
  · have hsignature := hof.signature
    simp only [LimitedAccount.ofRead]
    cases hoffset : read.txnSignatureOffset with
    | none => exact .none
    | some offset =>
      have htracks := Tracks.start (data.take range.start) (hof.signature offset hoffset)
      rw [hpre, signatureRange_shift] at htracks
      exact .some htracks

theorem Layout.bounded_of_body (hin : range.In data) (hbody : slice data range = l.body len₀ version₀)
    (hfits : data.length ≤ isizeMax) : l.Bounded := by
  have hlength := length_slice hin
  have hbodyLength := l.length_body len₀ version₀
  rw [hbody] at hlength
  have hstop := hin.2
  unfold isizeMax at hfits
  unfold Layout.Bounded
  omega

/-- For a laid out message the condition is about the places before the last nested account. -/
theorem LaidOut.movable_iff (h : LaidOut l pre len version msg) (hbound : l.Bounded) : msg.Movable ↔
    ∀ writeVersion, ∀ range ∈ msg.ranges, range.start < msg.accountOffset →
      StaysReadable msg.buffer (sizeLen l len writeVersion) range := by
  obtain ⟨n, hversion⟩ := h.fits.version
  obtain ⟨-, hlenStands, -, hversionStands, -⟩ := h.parts
  have hlt : msg.accountOffset < msg.writeVersion := by
    have hpos := h.fits.len.pos
    rw [h.accountOffset, h.writeVersion, Layout.versionOffset]
    omega
  have hsize : ∀ writeVersion : UInt64, encodedLenVarint ((l.content version).length +
      encodedLenVarint writeVersion.toNat - version.length) = (newLen l writeVersion).length := by
    intro writeVersion
    obtain ⟨hlen, -, -⟩ := length_newLen h.fits writeVersion hbound
    have hlenVersion := length_encodeVarint writeVersion.toNat_lt
    have hcontent := l.length_content version
    have hcontent' := l.length_content (encodeVarint writeVersion.toNat)
    rw [hlen]
    exact congrArg encodedLenVarint (by omega)
  have hreadLen := readVarint_eq hlenStands h.fits.len
  have hreadVersion := readVarint_eq hversionStands hversion
  constructor
  · rintro ⟨-, hmovable⟩ writeVersion range hmem hstart
    have hstays := hmovable _ _ _ _ hreadLen hreadVersion writeVersion range hmem hstart
    rw [hsize] at hstays
    exact hstays
  · intro hstays
    refine ⟨hlt, ?_⟩
    intro size msgSizeCurrent value wvSizeCurrent hsizeRead hversionRead writeVersion range hmem hstart
    obtain ⟨rfl, rfl⟩ := Prod.mk.inj (Except.ok.inj (hreadLen.symm.trans hsizeRead))
    obtain ⟨-, rfl⟩ := Prod.mk.inj (Except.ok.inj (hreadVersion.symm.trans hversionRead))
    rw [hsize]
    exact hstays writeVersion range hmem hstart

theorem LaidOut.stays (h : LaidOut l pre len version msg) (hbound : l.Bounded) (hmovable : msg.Movable)
    {range₀ : Range} (hmem : range₀.shift pre.length ∈ msg.ranges) : Stays l pre len range₀ := by
  intro hle hstop writeVersion
  obtain ⟨-, hlen, -⟩ := length_newLen h.fits writeVersion hbound
  refine (staysReadable_iff h.parts.1 hlen hle hstop).mp ?_
  refine (h.movable_iff hbound).mp hmovable writeVersion _ hmem ?_
  rw [h.accountOffset]
  simp only [Range.shift]
  omega

end

/-! ### When it is a lens -/

section

open UpdateOneofLimitedDecodeAccount (signatureRange)

variable {l : Layout} {pre len₀ version₀ data buffer : Bytes} {read : UpdateOneofLimitedDecodeAccount}
  {createdAt : Proto.Timestamp} {range range' : Range} {msg msg' : LimitedAccount} {gen : Generated}
  {writeVersion : UInt64}

/-- The write version stands in the last nested account, if there is an update without an underflow. -/
theorem lt_of_update (h : msg.updateWriteVersion writeVersion = .ok msg') : msg.accountOffset < msg.writeVersion := by
  obtain ⟨⟨_, wvSizeCurrent⟩, -, h⟩ := bind_eq_ok.mp h
  obtain ⟨⟨size, msgSizeCurrent⟩, hsize, h⟩ := bind_eq_ok.mp h
  obtain ⟨size', -, h⟩ := bind_eq_ok.mp h
  obtain ⟨stop, -, h⟩ := bind_eq_ok.mp h
  obtain ⟨newEnd, -, h⟩ := bind_eq_ok.mp h
  obtain ⟨count, hcount, -⟩ := bind_eq_ok.mp h
  have hpos := readVarint_pos hsize
  have hle := (subtract_eq_ok hcount).1
  dsimp only at hle
  omega

/-- A place before the last nested account that reads the same after an update. -/
theorem LaidOut.stays_of_moved (h : LaidOut l pre len₀ version₀ msg) (hbound : l.Bounded)
    (hstands : StandsAt buffer 0 (pre ++ l.body (newLen l writeVersion) (encodeVarint writeVersion.toNat)))
    (hle : range.start ≤ range.stop) (hstop : range.stop < pre.length + l.head.length)
    (hmoved : moveRange (sizeLen l len₀ writeVersion) (versionLen version₀ writeVersion)
      (pre.length + l.versionOffset (newLen l writeVersion)) range = .ok range')
    (hslice : slice buffer range' = slice msg.buffer range) :
    StaysReadable msg.buffer (sizeLen l len₀ writeVersion) range := by
  obtain ⟨-, hlen, -⟩ := length_newLen h.fits writeVersion hbound
  have hsize := moveRange_eq_ok hmoved
  have hoffset : l.versionOffset (newLen l writeVersion) =
      l.head.length + (newLen l writeVersion).length + l.before.length := rfl
  simp only [sizeLen] at hsize
  rw [moveRange_before hle hsize (by simp only [sizeLen]; omega)] at hmoved
  obtain rfl := Except.ok.inj hmoved
  rw [Layout.body, ← List.append_assoc] at hstands
  have hhead := hstands.left
  refine ⟨hsize, ?_⟩
  rw [← hslice, slice_of_standsAt hhead (Nat.zero_le _) (by simp only [sizeLen]; omega)
    (by simp only [sizeLen, List.length_append]; omega), slice_of_standsAt h.parts.1 (Nat.zero_le _)
    (by simp only [sizeLen]; omega) (by simp only [sizeLen, List.length_append]; omega)]

theorem Layout.Stands.stop_lt (h : l.Stands len₀ version₀ range) (hstart : range.start < l.head.length) :
    range.stop < l.head.length := by
  have hoffset : l.versionOffset len₀ = l.head.length + len₀.length + l.before.length := rfl
  obtain ⟨-, hcases⟩ := h
  omega

theorem movable_of_updates (hof : l.Of len₀ version₀ read) (hbound : l.Bounded)
    (h : LaidOut l pre len₀ version₀ msg) (hpre : pre.length = range.start)
    (hmsg : msg = .ofRead data createdAt range read l.head.length)
    (hupdates : ∀ writeVersion, ∃ msg', msg.updateWriteVersion writeVersion = .ok msg' ∧
      slice msg'.buffer msg'.data = slice msg.buffer msg.data ∧
      (MessageAccount.limited msg').txnSignature = (MessageAccount.limited msg).txnSignature) : msg.Movable := by
  refine (h.movable_iff hbound).mpr fun writeVersion place hmem hstart => ?_
  obtain ⟨msg', hupdate, hdata, hsignature⟩ := hupdates writeVersion
  obtain ⟨buffer, hstands, heq⟩ := h.update_eq writeVersion hbound
  rw [heq] at hupdate
  obtain ⟨data', hmoved, hupdate⟩ := bind_eq_ok.mp hupdate
  obtain ⟨signature', hmapped, hupdate⟩ := bind_eq_ok.mp hupdate
  obtain rfl := Except.ok.inj hupdate
  rw [h.accountOffset] at hstart
  rcases List.mem_cons.mp hmem with rfl | hmem
  · have hdataEq : msg.data = read.data.shift pre.length := by
      rw [hmsg, hpre]
      rfl
    rw [hdataEq] at hmoved hstart hdata ⊢
    simp only [Range.shift] at hstart
    have hstop := hof.data.stop_lt (by omega)
    refine h.stays_of_moved hbound hstands ?_ ?_ hmoved hdata
    · exact Nat.add_le_add_right hof.data.1 _
    · simp only [Range.shift]
      omega
  · obtain ⟨offset, hoffset, rfl⟩ := List.mem_map.mp hmem
    have hsome := Option.mem_toList.mp hoffset
    obtain ⟨inner, hinner, rfl⟩ : ∃ inner ∈ read.txnSignatureOffset, offset = inner + pre.length := by
      rw [hmsg] at hsome
      obtain ⟨inner, hinner, rfl⟩ := Option.map_eq_some_iff.mp hsome
      exact ⟨inner, hinner, by rw [hpre]⟩
    have hinnerStands := hof.signature inner hinner
    rw [Option.mem_def.mp hsome, Option.mapM_some] at hmapped
    cases hoffsetMoved : moveOffset (sizeLen l len₀ writeVersion) (versionLen version₀ writeVersion)
        (pre.length + l.versionOffset (newLen l writeVersion)) (inner + pre.length) with
    | error e =>
      rw [hoffsetMoved] at hmapped
      cases hmapped
    | ok offset' =>
      rw [hoffsetMoved] at hmapped
      obtain rfl := Except.ok.inj hmapped
      have hmoved := (moveRange_signature (inner + pre.length)).trans
        (congrArg (Except.map signatureRange) hoffsetMoved)
      simp only [MessageAccount.txnSignature, Option.mem_def.mp hsome, Option.map_some, Option.some.injEq]
        at hsignature
      have hlt : inner < l.head.length := by
        dsimp only at hstart
        omega
      have hstop := hinnerStands.stop_lt hlt
      simp only [signatureRange] at hstop
      refine h.stays_of_moved hbound hstands ?_ ?_ hmoved hsignature
      · exact Nat.le_add_right ..
      · dsimp only
        omega

/-- The updates of a limited message are a lens exactly if it is movable. -/
theorem limited_isLens_iff (hparse : parse gen data = .ok (.account (.limited msg))) (hfits : data.length ≤ isizeMax) :
    IsLens gen .limited (.ofParsed data (.limited msg)) ↔ msg.Movable := by
  obtain ⟨range, createdAt, read, account, hin, hdecode, haccount, hmsg⟩ := exists_read hparse
  obtain rfl := MessageAccount.limited.inj hmsg
  have hpre : (data.take range.start).length = range.start := by
    obtain ⟨hle, hstop⟩ := hin
    rw [List.length_take]
    omega
  have hlayout : account + range.start < read.writeVersion + range.start →
      ∃ l : Layout, ∃ len₀ version₀, slice data range = l.body len₀ version₀ ∧ l.Of len₀ version₀ read :=
    fun hlt => exists_layout hdecode haccount (by omega)
  constructor
  · intro hlens
    have hupdates : ∀ writeVersion, ∃ msg', LimitedAccount.updateWriteVersion
        (.ofRead data createdAt range read account) writeVersion = .ok msg' ∧
        slice msg'.buffer msg'.data = slice data (read.data.shift range.start) ∧
        (MessageAccount.limited msg').txnSignature =
          (MessageAccount.limited (.ofRead data createdAt range read account)).txnSignature := by
      intro writeVersion
      obtain ⟨me', hrun, hsame, -⟩ := hlens [writeVersion]
      obtain ⟨me₁, hupdate, hnil⟩ := bind_eq_ok.mp hrun
      obtain rfl := Except.ok.inj hnil
      obtain ⟨msg', hupdated, hmsg⟩ := bind_eq_ok.mp hupdate
      obtain rfl := Except.ok.inj hmsg
      exact ⟨msg', hupdated, congrArg AccountView.data hsame.view, congrArg AccountView.txnSignature hsame.view⟩
    obtain ⟨msg', hupdate, -⟩ := hupdates 0
    obtain ⟨l, len₀, version₀, hbody, hof⟩ := hlayout (lt_of_update hupdate)
    have hreached := hof.reached hin hbody haccount createdAt
    obtain rfl := Option.some.inj (haccount.symm.trans hof.account)
    exact movable_of_updates hof (Layout.bounded_of_body hin hbody hfits) hreached.laidOut hpre rfl hupdates
  · intro hmovable writeVersions
    obtain ⟨l, len₀, version₀, hbody, hof⟩ := hlayout hmovable.1
    have hreached := hof.reached hin hbody haccount createdAt
    have hbound := Layout.bounded_of_body hin hbody hfits
    have hdata : Stays l (data.take range.start) len₀ read.data := by
      refine hreached.laidOut.stays hbound hmovable ?_
      rw [hpre]
      exact List.mem_cons_self
    have hsignature : ∀ offset ∈ read.txnSignatureOffset,
        Stays l (data.take range.start) len₀ (signatureRange offset) := by
      intro offset hmem
      refine hreached.laidOut.stays hbound hmovable (List.mem_cons_of_mem _ ?_)
      rw [hpre, signatureRange_shift]
      refine List.mem_map.mpr ⟨offset + range.start, Option.mem_toList.mpr ?_, rfl⟩
      exact Option.map_eq_some_iff.mpr ⟨offset, hmem, rfl⟩
    obtain ⟨n, hversion⟩ := hof.fits.version
    obtain ⟨msg', len, version, n', hrun, hreached', hversion', hlast⟩ :=
      Reached.run hof.fits hbound hdata hsignature hreached hversion
    obtain ⟨msg₁, hback, hlike⟩ := hreached'.read_back hof hbound
    refine ⟨_, hrun, hreached.readsLike.sameBut hreached'.readsLike hversion hversion' hlast, _,
      hreached'.laidOut.encoded, .limited msg₁, hback, ?_⟩
    exact hreached'.readsLike.sameBut hlike hversion' hversion' rfl

end

/-! ### Messages of prost -/

namespace ProstAccount

/-- The message with another write version. -/
def withVersion (msg : ProstAccount) (writeVersion : UInt64) : ProstAccount :=
  { msg with account := { msg.account with writeVersion } }

/-- The update that is written for the message. -/
def written (msg : ProstAccount) : Proto.SubscribeUpdate where
  filters := []
  updateOneof := some (.account
    { account := some msg.account
      slot := msg.slot
      isStartup := msg.isStartup
      bankId := msg.bankId })
  createdAt := some msg.createdAt

/-- The public keys of a message are those of its account. -/
def Keyed (msg : ProstAccount) : Prop :=
  pubkeyTryFrom msg.account.pubkey = .ok msg.pubkey ∧ pubkeyTryFrom msg.account.owner = .ok msg.owner

end ProstAccount

section

variable {data : Bytes} {m : MessageAccount} {msg : ProstAccount} {gen : Generated} {createdAt : Proto.Timestamp}

theorem keyed_of_parseAccount {message : Proto.SubscribeUpdateAccount}
    (h : MessageParserProst.parseAccount createdAt message = .ok (.account m)) : ∃ msg, m = .prost msg ∧ msg.Keyed := by
  unfold MessageParserProst.parseAccount at h
  cases haccount : message.account with
  | none =>
    rw [haccount] at h
    cases h
  | some account =>
    rw [haccount] at h
    obtain ⟨created, hcreate, hmsg⟩ := bind_eq_ok.mp h
    obtain ⟨pubkey, hpubkey, hcreate⟩ := bind_eq_ok.mp hcreate
    obtain ⟨owner, howner, hcreate⟩ := bind_eq_ok.mp hcreate
    obtain rfl := Except.ok.inj hcreate
    obtain rfl := Message.account.inj (Except.ok.inj hmsg)
    exact ⟨_, rfl, hpubkey, howner⟩

theorem keyed_of_parse (h : MessageParserProst.parse gen data = .ok (.account m)) :
    ∃ msg, m = .prost msg ∧ msg.Keyed := by
  obtain ⟨update, -, h⟩ := bind_eq_ok.mp h
  cases hcreatedAt : update.createdAt with
  | none =>
    rw [hcreatedAt] at h
    cases h
  | some createdAt =>
    rw [hcreatedAt] at h
    dsimp only at h
    cases honeof : update.updateOneof with
    | none =>
      rw [honeof] at h
      obtain ⟨richat, -, h⟩ := bind_eq_ok.mp h
      obtain ⟨footer, hmsg⟩ | ⟨parent, hmsg⟩ := parseRichat_eq_ok h
      · cases hmsg
      · cases hmsg
    | some v =>
      rw [honeof] at h
      cases v with
      | account message => exact keyed_of_parseAccount h
      | slot message =>
        dsimp only [MessageParserProst.parseSlot] at h
        split at h
        · cases h
        · cases h
      | transaction message =>
        dsimp only [MessageParserProst.parseTransaction] at h
        split at h
        · obtain ⟨transaction, -, h⟩ := bind_eq_ok.mp h
          cases h
        · cases h
      | block message =>
        obtain ⟨accounts, -, h⟩ := bind_eq_ok.mp h
        obtain ⟨transactions, -, h⟩ := bind_eq_ok.mp h
        obtain ⟨blockMeta, -, h⟩ := bind_eq_ok.mp h
        cases h
      | blockMeta blockMeta =>
        obtain ⟨created, -, h⟩ := bind_eq_ok.mp h
        cases h
      | transactionStatus | entry | ping | pong | blockFooter | entryUpdateParent => cases h

theorem encoded_prost : (MessageAccount.prost msg).encoded = .ok (WireMessage.encodeRaw msg.written) := rfl

/-- A message of prost is read back as it is. -/
theorem parse_prost (hgen : gen.Reads msg.written) (hkeyed : msg.Keyed) :
    Message.parse gen (WireMessage.encodeRaw msg.written) .prost = .ok (.account (.prost msg)) := by
  refine (prost_parse hgen rfl rfl).trans ?_
  refine bind_eq_ok.mpr ⟨.prost msg, ?_, rfl⟩
  exact bind_eq_ok.mpr ⟨_, hkeyed.1, bind_eq_ok.mpr ⟨_, hkeyed.2, rfl⟩⟩

theorem encodedLenVarint_le (value : UInt64) : encodedLenVarint value.toNat ≤ 10 := by
  rw [← length_encodeVarint value.toNat_lt]
  exact (IsVarint.encode value.toNat_lt).length_le

/-- The size of a message follows the length of its write version, so it is not exhausted. -/
theorem prost_run (rest : ℕ) : ∀ (writeVersions : List UInt64) (msg : ProstAccount),
    SizedAccount.updateWriteVersions ⟨.prost msg, rest + encodedLenVarint msg.account.writeVersion.toNat⟩
      writeVersions = .ok ⟨.prost (msg.withVersion (writeVersions.getLast?.getD msg.account.writeVersion)),
        rest + encodedLenVarint (writeVersions.getLast?.getD msg.account.writeVersion).toNat⟩ := by
  intro writeVersions
  induction writeVersions with
  | nil => exact fun _ => rfl
  | cons writeVersion writeVersions ih =>
    intro msg
    have hsize : subtract
        (rest + encodedLenVarint msg.account.writeVersion.toNat + encodedLenVarint writeVersion.toNat) (encodedLenVarint msg.account.writeVersion.toNat) = .ok (rest + encodedLenVarint writeVersion.toNat) := by
      rw [subtract_eq (by omega)]
      exact congrArg Except.ok (by omega)
    have hstep : SizedAccount.updateWriteVersion
        ⟨.prost msg, rest + encodedLenVarint msg.account.writeVersion.toNat⟩ writeVersion =
        .ok ⟨.prost (msg.withVersion writeVersion), rest + encodedLenVarint writeVersion.toNat⟩ :=
      bind_eq_ok.mpr ⟨_, hsize, rfl⟩
    rw [SizedAccount.updateWriteVersions, List.foldlM_cons, hstep, ok_bind, List.getLast?_cons]
    exact ih (msg.withVersion writeVersion)

theorem prost_isLens (hparse : MessageParserProst.parse gen data = .ok (.account (.prost msg)))
    (hgen : ∀ writeVersion, gen.Reads (msg.withVersion writeVersion).written) :
    IsLens gen .prost (.ofParsed data (.prost msg)) := by
  intro writeVersions
  obtain ⟨msg', hmsg, hkeyed⟩ := keyed_of_parse hparse
  obtain rfl := MessageAccount.prost.inj hmsg
  obtain ⟨rest, hrest⟩ : ∃ rest, pubkeyBytes + pubkeyBytes + data.length + 20 =
      rest + encodedLenVarint msg.account.writeVersion.toNat := by
    have hle := encodedLenVarint_le msg.account.writeVersion
    exact ⟨pubkeyBytes + pubkeyBytes + data.length + 20 - encodedLenVarint msg.account.writeVersion.toNat, by omega⟩
  have hrun := prost_run rest writeVersions msg
  rw [← hrest] at hrun
  refine ⟨_, hrun, ?_, _, encoded_prost, _, parse_prost (hgen _) hkeyed, ⟨trivial, rfl, rfl, rfl⟩⟩
  refine ⟨trivial, ?_, rfl, rfl⟩
  cases writeVersions.getLast? <;> rfl

end

/-! ### All messages -/

section

variable {data : Bytes} {msg : MessageAccount} {gen : Generated} {encoding : MessageParserEncoding}

/-- The updates are a lens for a message of prost, and for a limited one exactly if it is movable. -/
theorem update_write_version_iff (hparse : Message.parse gen data encoding = .ok (.account msg))
    (hfits : data.length ≤ isizeMax)
    (hgen : ∀ account, msg = .prost account → ∀ writeVersion, gen.Reads (account.withVersion writeVersion).written) :
    IsLens gen encoding (.ofParsed data msg) ↔ msg.Movable := by
  cases encoding with
  | limited =>
    obtain ⟨range, createdAt, read, account, -, -, -, rfl⟩ := exists_read hparse
    exact limited_isLens_iff hparse hfits
  | prost =>
    obtain ⟨account, rfl, -⟩ := keyed_of_parse hparse
    exact iff_of_true (prost_isLens hparse (hgen account rfl)) trivial

end

/-- An account that prost has written, as the limited parser reads it. -/
theorem limited_parse_account {u : Proto.SubscribeUpdate} {m : Proto.SubscribeUpdateAccount} {t : Proto.Timestamp}
    {a : Proto.SubscribeUpdateAccountInfo} {gen : Generated} (hv : u.updateOneof = some (.account m))
    (ht : u.createdAt = some t) (ha : m.account = some a) (h : AccountInfoWellFormed a)
    (hfits : (WireMessage.encodeRaw u).length < 2 ^ 64) : Message.parse gen (WireMessage.encodeRaw u) .limited =
      .ok (.account (.limited (limitedAccount (WireMessage.encodeRaw u) (updateRange u (.account m)) t m a h))) :=
  (limited_parse hv ht hfits).trans (limited_parseAccount ha h (length_body_lt hv hfits) (slice_update hv))

theorem update_write_version_account : ∃ msg,
    Message.parse (.reading (writtenAccount 10)) (WireMessage.encodeRaw (writtenAccount 10)) .limited =
        .ok (.account msg) ∧
      IsLens (.reading (writtenAccount 10)) .limited (.ofParsed (WireMessage.encodeRaw (writtenAccount 10)) msg) := by
  have hparse : Message.parse (.reading (writtenAccount 10)) (WireMessage.encodeRaw (writtenAccount 10))
      .limited = _ :=
    limited_parse_account rfl rfl rfl ((wellFormed_writtenAccount 10).account _ _ rfl rfl) (by decide +kernel)
  refine ⟨_, hparse, (update_write_version_iff hparse (by decide +kernel) ?_).mpr ⟨by decide +kernel, ?_⟩⟩
  · intro account hmsg
    cases hmsg
  · intro size msgSizeCurrent value wvSizeCurrent _ _ writeVersion range hmem hstart
    -- the data stands in the nested account
    obtain rfl := List.mem_singleton.mp hmem
    exact absurd hstart (by decide +kernel)

/-- prost leaves out a write version that is zero: then it is looked for where the update starts. -/
theorem update_write_version_omitted : ∃ msg,
    Message.parse (.reading (writtenAccount 0)) (WireMessage.encodeRaw (writtenAccount 0)) .limited =
        .ok (.account msg) ∧
      ¬ IsLens (.reading (writtenAccount 0)) .limited (.ofParsed (WireMessage.encodeRaw (writtenAccount 0)) msg) := by
  have hparse : Message.parse (.reading (writtenAccount 0)) (WireMessage.encodeRaw (writtenAccount 0)) .limited = _ :=
    limited_parse_account rfl rfl rfl ((wellFormed_writtenAccount 0).account _ _ rfl rfl) (by decide +kernel)
  refine ⟨_, hparse, fun hlens => ?_⟩
  have hlt := ((limited_isLens_iff hparse (by decide +kernel)).mp hlens).1
  revert hlt
  decide +kernel

end Richat.Filter
