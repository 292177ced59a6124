import Richat.Filter.AccountLayout
import Richat.Filter.ContainmentSpec
import Richat.Filter.WriteVersion

/-!
# What an update of the write version does

A limited message is laid out (`LaidOut`) when its buffer holds the parts of a layout at the places it stores. An
update writes the same parts around two other varints, so the message is laid out again, and what stands in the last
nested account has moved to the place where the decoder finds it. What does not stand in it is moved too, which is
seen when the length of that account takes another number of bytes.
-/

namespace Richat.Filter

open Lib Lib.Protobuf MessageParserLimited

/-! ### The steps -/

section

variable {buffer part : Bytes} {offset n : ℕ}

theorem readVarint_eq (h : StandsAt buffer offset part) (hpart : IsVarint part n) :
    readVarint buffer offset = .ok (n, part.length) := by
  have hle := h.length_le
  obtain ⟨post, hdrop⟩ := h.drop_eq
  unfold readVarint
  rw [if_pos (by omega), hdrop, hpart.takes post]
  simp only [List.length_append, Nat.add_sub_cancel]

/-- A varint that is read takes a byte at least. -/
theorem readVarint_pos {size : ℕ} (h : readVarint buffer offset = .ok (n, size)) : 0 < size := by
  unfold readVarint at h
  split at h
  · cases hvar : decodeVarint (buffer.drop offset) with
    | error e =>
      rw [hvar] at h
      cases h
    | ok r =>
      obtain ⟨value, rest⟩ := r
      rw [hvar] at h
      obtain ⟨rfl, rfl⟩ := Prod.mk.inj (Except.ok.inj h)
      obtain ⟨part, hpart, hne, -⟩ := decodeVarint_part hvar
      have hpos := List.length_pos_iff.mpr hne
      rw [hpart, List.length_append]
      omega
  · cases h

theorem subtract_eq {a b : ℕ} (h : b ≤ a) : subtract a b = .ok (a - b) := if_pos h

theorem subtract_eq_ok {a b c : ℕ} (h : subtract a b = .ok c) : b ≤ a ∧ c = a - b := by
  unfold subtract at h
  split at h
  · exact ⟨‹_›, (Except.ok.inj h).symm⟩
  · cases h

theorem length_resize (buffer : Bytes) (newEnd : ℕ) : newEnd ≤ (resize buffer newEnd).length := by
  simp only [resize, List.length_append, List.length_replicate]
  omega

/-- A part is copied to where there is room for it. -/
theorem ptrCopy_eq {target count : ℕ} (h : StandsAt buffer offset part) (hcount : count = part.length)
    (htarget : target + part.length ≤ buffer.length) :
    ptrCopy buffer offset target count = .ok (overwrite buffer target part) := by
  subst hcount
  rw [ptrCopy, if_pos ⟨h.length_le, htarget⟩, h.take_drop]

theorem writeVarint_eq {value : ℕ} (h : offset + (encodeVarint value).length ≤ buffer.length) :
    writeVarint buffer offset value = .ok (overwrite buffer offset (encodeVarint value)) := if_pos h

end

/-! ### Laid out messages -/

/-- The buffer of a message holds the parts of a layout at the places of the message. -/
structure LaidOut (l : Layout) (pre len version : Bytes) (msg : LimitedAccount) : Prop where
  fits : l.Fits len version
  stands : StandsAt msg.buffer 0 (pre ++ l.body len version)
  accountOffset : msg.accountOffset = pre.length + l.head.length
  writeVersion : msg.writeVersion = pre.length + l.versionOffset len
  range : msg.range = ⟨pre.length, pre.length + (l.body len version).length⟩

namespace LaidOut

variable {l : Layout} {pre len version : Bytes} {msg : LimitedAccount}

/-- The lengths before and after a new write version. -/
def versionLen (version : Bytes) (writeVersion : UInt64) : VarintLen :=
  ⟨version.length, (encodeVarint writeVersion.toNat).length⟩

/-- The length of the account with a new write version. -/
def newLen (l : Layout) (writeVersion : UInt64) : Bytes :=
  encodeVarint (l.content (encodeVarint writeVersion.toNat)).length

def sizeLen (l : Layout) (len : Bytes) (writeVersion : UInt64) : VarintLen :=
  ⟨len.length, (newLen l writeVersion).length⟩

/-- The parts are there one after the other. -/
theorem parts (h : LaidOut l pre len version msg) :
    StandsAt msg.buffer 0 (pre ++ l.head) ∧ StandsAt msg.buffer msg.accountOffset len ∧
      StandsAt msg.buffer (msg.accountOffset + len.length) l.before ∧ StandsAt msg.buffer msg.writeVersion version ∧
      StandsAt msg.buffer (msg.writeVersion + version.length) (l.after ++ l.tail) := by
  have hall : StandsAt msg.buffer 0 ((pre ++ l.head) ++ (len ++ (l.before ++ (version ++ (l.after ++ l.tail))))) := by
    have hstands := h.stands
    simp only [Layout.body, Layout.content, List.append_assoc] at hstands ⊢
    exact hstands
  have hlen := hall.right
  have hbefore := hlen.right
  have hversion := hbefore.right
  rw [h.accountOffset, h.writeVersion]
  simp only [List.length_append, Nat.zero_add, Layout.versionOffset, ← Nat.add_assoc] at hlen hbefore hversion ⊢
  refine ⟨hall.left, hlen.left, hbefore.left, hversion.left, hversion.right⟩

/-- The new lengths: the account grows by less than a byte of a varint counts. -/
theorem length_newLen (hold : l.Fits len version) (writeVersion : UInt64) (hbound : l.Bounded) :
    (newLen l writeVersion).length = encodedLenVarint (l.content (encodeVarint writeVersion.toNat)).length ∧
    (newLen l writeVersion).length ≤ len.length + 1 ∧
      l.Fits (newLen l writeVersion) (encodeVarint writeVersion.toNat) := by
  obtain ⟨n, hversion⟩ := hold.version
  have hnew := IsVarint.encode writeVersion.toNat_lt
  have hpos := hversion.pos
  have hten := hnew.length_le
  have hcontent := l.length_content version
  have hcontent' := l.length_content (encodeVarint writeVersion.toNat)
  have hfits : (l.content (encodeVarint writeVersion.toNat)).length < 2 ^ 64 := by
    unfold Layout.Bounded at hbound
    omega
  have hlen : (newLen l writeVersion).length = encodedLenVarint (l.content (encodeVarint writeVersion.toNat)).length :=
    length_encodeVarint hfits
  refine ⟨hlen, ?_, IsVarint.encode hfits, _, hnew⟩
  rw [hlen]
  exact hold.len.encodedLenVarint_le (by omega) hfits

/-- The four writes: the parts stand around the two new varints. -/
theorem written {buffer : Bytes} (h : LaidOut l pre len version { msg with buffer }) {len' version' : Bytes}
    (hle : len'.length ≤ len.length + 1)
    (hroom : pre.length + (l.body len' version').length ≤ buffer.length) :
    ∃ buffer₁ buffer₂ buffer₃,
      ptrCopy buffer (msg.accountOffset + len.length) (msg.accountOffset + len'.length)
        (msg.writeVersion - (msg.accountOffset + len.length)) = .ok buffer₁ ∧
      ptrCopy buffer₁ (msg.writeVersion + version.length) (pre.length + l.versionOffset len' + version'.length)
        (msg.range.stop - (msg.writeVersion + version.length)) = .ok buffer₂ ∧
      msg.accountOffset + len'.length ≤ buffer₂.length ∧ buffer₃ = overwrite buffer₂ msg.accountOffset len' ∧
      pre.length + l.versionOffset len' + version'.length ≤ buffer₃.length ∧
      StandsAt (overwrite buffer₃ (pre.length + l.versionOffset len') version') 0 (pre ++ l.body len' version') := by
  obtain ⟨hhead, -, hbefore, -, hrest⟩ := h.parts
  obtain ⟨n, hversion⟩ := h.fits.version
  have hpos := hversion.pos
  have haccount := h.accountOffset
  have hoffset := h.writeVersion
  have hrange := h.range
  have hbody := l.length_body len version
  have hbody' := l.length_body len' version'
  have hversionOffset : l.versionOffset len' = l.head.length + len'.length + l.before.length := rfl
  rw [Layout.versionOffset] at hoffset
  dsimp only at hhead hbefore hrest haccount hoffset
  have hlength : (l.after ++ l.tail).length = l.after.length + l.tail.length := List.length_append
  have hheadLength : (pre ++ l.head).length = pre.length + l.head.length := List.length_append
  -- what comes before the write version, and what comes after it
  have hcopy : ptrCopy buffer (msg.accountOffset + len.length) (msg.accountOffset + len'.length)
      (msg.writeVersion - (msg.accountOffset + len.length)) =
        .ok (overwrite buffer (msg.accountOffset + len'.length) l.before) :=
    ptrCopy_eq hbefore (by omega) (by omega)
  have hlength₁ := length_overwrite (show msg.accountOffset + len'.length + l.before.length ≤ buffer.length by omega)
  have hhead₁ := hhead.before_write (msg.accountOffset + len'.length) l.before (by omega)
  have hbefore₁ := StandsAt.written l.before (show msg.accountOffset + len'.length ≤ buffer.length by omega)
  have hrest₁ := hrest.after_write (msg.accountOffset + len'.length) l.before (by omega)
  generalize overwrite buffer (msg.accountOffset + len'.length) l.before = buffer₁ at *
  have hcopy₂ : ptrCopy buffer₁ (msg.writeVersion + version.length)
      (pre.length + l.versionOffset len' + version'.length) (msg.range.stop - (msg.writeVersion + version.length)) =
        .ok (overwrite buffer₁ (pre.length + l.versionOffset len' + version'.length) (l.after ++ l.tail)) := by
    refine ptrCopy_eq hrest₁ ?_ (by omega)
    rw [hrange]
    dsimp only
    omega
  have hlength₂ := length_overwrite (show pre.length + l.versionOffset len' + version'.length +
    (l.after ++ l.tail).length ≤ buffer₁.length by omega)
  have hhead₂ := hhead₁.before_write (pre.length + l.versionOffset len' + version'.length) (l.after ++ l.tail)
    (by omega)
  have hbefore₂ := hbefore₁.before_write (pre.length + l.versionOffset len' + version'.length) (l.after ++ l.tail)
    (by omega)
  have hrest₂ := StandsAt.written (l.after ++ l.tail)
    (show pre.length + l.versionOffset len' + version'.length ≤ buffer₁.length by omega)
  generalize overwrite buffer₁ (pre.length + l.versionOffset len' + version'.length) (l.after ++ l.tail) = buffer₂ at *
  -- the two varints
  have hlength₃ := length_overwrite (show msg.accountOffset + len'.length ≤ buffer₂.length by omega)
  have hhead₃ := hhead₂.before_write msg.accountOffset len' (by omega)
  have hlen₃ := StandsAt.written len' (show msg.accountOffset ≤ buffer₂.length by omega)
  have hbefore₃ := hbefore₂.after_write msg.accountOffset len' (by omega)
  have hrest₃ := hrest₂.after_write msg.accountOffset len' (by omega)
  refine ⟨buffer₁, buffer₂, _, hcopy, hcopy₂, by omega, rfl, by omega, ?_⟩
  generalize overwrite buffer₂ msg.accountOffset len' = buffer₃ at *
  have hhead₄ := hhead₃.before_write (pre.length + l.versionOffset len') version' (by omega)
  have hlen₄ := hlen₃.before_write (pre.length + l.versionOffset len') version' (by omega)
  have hbefore₄ := hbefore₃.before_write (pre.length + l.versionOffset len') version' (by omega)
  have hversion₄ := StandsAt.written version' (show pre.length + l.versionOffset len' ≤ buffer₃.length by omega)
  have hrest₄ := hrest₃.after_write (pre.length + l.versionOffset len') version' (by omega)
  generalize overwrite buffer₃ (pre.length + l.versionOffset len') version' = buffer₄ at *
  have hfrom : StandsAt buffer₄ (msg.accountOffset + len'.length) (l.before ++ (version' ++ (l.after ++ l.tail))) := by
    refine hbefore₄.append ?_
    rw [show msg.accountOffset + len'.length + l.before.length = pre.length + l.versionOffset len' by omega]
    exact hversion₄.append hrest₄
  have haccount₄ : StandsAt buffer₄ (0 + (pre ++ l.head).length)
      (len' ++ (l.before ++ (version' ++ (l.after ++ l.tail)))) := by
    rw [show 0 + (pre ++ l.head).length = msg.accountOffset by omega]
    exact hlen₄.append hfrom
  simpa only [Layout.body, Layout.content, List.append_assoc] using hhead₄.append haccount₄

theorem moved_eq {len : VarintLen} {offset : ℕ} (h : len.current ≤ offset + len.new) :
    len.moved offset = .ok (offset + len.new - len.current) := subtract_eq h

/-- An update leaves the parts around the two new varints; the places of the data and of the signature are moved. -/
theorem update_eq (h : LaidOut l pre len version msg) (writeVersion : UInt64) (hbound : l.Bounded) :
    ∃ buffer, StandsAt buffer 0 (pre ++ l.body (newLen l writeVersion) (encodeVarint writeVersion.toNat)) ∧
      msg.updateWriteVersion writeVersion = (do
        let data ← moveRange (sizeLen l len writeVersion) (versionLen version writeVersion)
          (pre.length + l.versionOffset (newLen l writeVersion)) msg.data
        let txnSignatureOffset ← msg.txnSignatureOffset.mapM (moveOffset (sizeLen l len writeVersion)
          (versionLen version writeVersion) (pre.length + l.versionOffset (newLen l writeVersion)))
        return { msg with
          buffer
          range := ⟨pre.length,
            pre.length + (l.body (newLen l writeVersion) (encodeVarint writeVersion.toNat)).length⟩
          data
          txnSignatureOffset
          writeVersion := pre.length + l.versionOffset (newLen l writeVersion) }) := by
  obtain ⟨hlen, hle, hfits⟩ := length_newLen h.fits writeVersion hbound
  obtain ⟨n, hversion⟩ := h.fits.version
  obtain ⟨-, hlenStands, -, hversionStands, -⟩ := h.parts
  have hbody := l.length_body len version
  have hbody' := l.length_body (newLen l writeVersion) (encodeVarint writeVersion.toNat)
  have hcontent := l.length_content version
  have hcontent' := l.length_content (encodeVarint writeVersion.toNat)
  have hlenVersion := length_encodeVarint writeVersion.toNat_lt
  have hroom : pre.length + (l.body (newLen l writeVersion) (encodeVarint writeVersion.toNat)).length ≤
      (resize msg.buffer
        (pre.length + (l.body (newLen l writeVersion) (encodeVarint writeVersion.toNat)).length)).length :=
    length_resize ..
  have hresized : LaidOut l pre len version { msg with
      buffer := resize msg.buffer
        (pre.length + (l.body (newLen l writeVersion) (encodeVarint writeVersion.toNat)).length) } :=
    ⟨h.fits, h.stands.mono _, h.accountOffset, h.writeVersion, h.range⟩
  obtain ⟨buffer₁, buffer₂, buffer₃, hcopy₁, hcopy₂, hroom₃, rfl, hroom₄, hstands⟩ := hresized.written hle hroom
  refine ⟨_, hstands, ?_⟩
  unfold LimitedAccount.updateWriteVersion
  rw [readVarint_eq hversionStands hversion, ok_bind]
  dsimp only
  rw [readVarint_eq hlenStands h.fits.len, ok_bind]
  dsimp only
  have hversionPos := hversion.pos
  have hsize : (l.content version).length + encodedLenVarint writeVersion.toNat - version.length =
      (l.content (encodeVarint writeVersion.toNat)).length := by omega
  rw [moved_eq (by dsimp only; omega), ok_bind]
  dsimp only
  rw [hsize, ← hlen, ← hlenVersion, h.range]
  dsimp only
  rw [moved_eq (by dsimp only; omega), ok_bind, moved_eq (by dsimp only; omega), ok_bind]
  dsimp only
  have hoffset := h.writeVersion
  have haccount := h.accountOffset
  have hversionOffset : l.versionOffset len = l.head.length + len.length + l.before.length := rfl
  have hversionOffset' : l.versionOffset (newLen l writeVersion) =
      l.head.length + (newLen l writeVersion).length + l.before.length := rfl
  have hend : pre.length + (l.body len version).length + (newLen l writeVersion).length - len.length +
      (encodeVarint writeVersion.toNat).length - version.length =
      pre.length + (l.body (newLen l writeVersion) (encodeVarint writeVersion.toNat)).length := by omega
  have hnew : msg.writeVersion + (newLen l writeVersion).length - len.length =
      pre.length + l.versionOffset (newLen l writeVersion) := by omega
  rw [hend, subtract_eq (by omega), ok_bind, hcopy₁, ok_bind, moved_eq (by dsimp only; omega), ok_bind]
  dsimp only
  rw [h.range] at hcopy₂
  rw [hnew, subtract_eq (by omega), ok_bind, hcopy₂, ok_bind]
  have hwrite₁ : writeVarint buffer₂ msg.accountOffset (l.content (encodeVarint writeVersion.toNat)).length =
      .ok (overwrite buffer₂ msg.accountOffset (newLen l writeVersion)) := writeVarint_eq hroom₃
  rw [hwrite₁, ok_bind, writeVarint_eq hroom₄, ok_bind]
  rfl

end LaidOut

/-! ### The places -/

section

variable {msgSize version : VarintLen} {writeVersionNew : ℕ} {range range' : Range}

/-- A signature is moved like the range of its bytes. -/
theorem moveRange_signature (offset : ℕ) :
    moveRange msgSize version writeVersionNew (UpdateOneofLimitedDecodeAccount.signatureRange offset) =
      (moveOffset msgSize version writeVersionNew offset).map UpdateOneofLimitedDecodeAccount.signatureRange := by
  have hstop : ∀ {len : VarintLen} {start n : ℕ}, len.current ≤ start + len.new →
      len.moved (start + n) = .ok (start + len.new - len.current + n) := by
    intro len start n hle
    rw [LaidOut.moved_eq (by omega)]
    exact congrArg Except.ok (by omega)
  have hfails : ∀ {len : VarintLen} {start : ℕ}, ¬ len.current ≤ start + len.new →
      len.moved start = .error .underflow := fun hle => if_neg hle
  unfold moveRange moveOffset UpdateOneofLimitedDecodeAccount.signatureRange
  dsimp only
  by_cases hsize : msgSize.current ≤ offset + msgSize.new
  · rw [LaidOut.moved_eq hsize, hstop hsize, ok_bind, ok_bind, ok_bind]
    by_cases hafter : writeVersionNew < offset + msgSize.new - msgSize.current
    · rw [if_pos hafter, if_pos hafter]
      by_cases hversion : version.current ≤ offset + msgSize.new - msgSize.current + version.new
      · rw [LaidOut.moved_eq hversion, hstop hversion]
        rfl
      · rw [hfails hversion]
        rfl
    · rw [if_neg hafter, if_neg hafter]
      rfl
  · rw [hfails hsize]
    rfl

theorem moveRange_eq_ok (h : moveRange msgSize version writeVersionNew range = .ok range') :
    msgSize.current ≤ range.start + msgSize.new := by
  obtain ⟨start, hstart, -⟩ := bind_eq_ok.mp h
  exact (subtract_eq_ok hstart).1

/-- A range before the write version is moved with the length of the account alone. -/
theorem moveRange_before (hle : range.start ≤ range.stop) (hsize : msgSize.current ≤ range.start + msgSize.new)
    (hbefore : range.start + msgSize.new - msgSize.current ≤ writeVersionNew) :
    moveRange msgSize version writeVersionNew range =
      .ok ⟨range.start + msgSize.new - msgSize.current, range.stop + msgSize.new - msgSize.current⟩ := by
  unfold moveRange
  rw [LaidOut.moved_eq hsize, LaidOut.moved_eq (by omega), ok_bind, ok_bind, if_neg (Nat.not_lt_of_le hbefore)]
  rfl

theorem moveRange_after (hle : range.start ≤ range.stop) (hsize : msgSize.current ≤ range.start + msgSize.new)
    (hafter : writeVersionNew < range.start + msgSize.new - msgSize.current)
    (hversion : version.current ≤ range.start + msgSize.new - msgSize.current + version.new) :
    moveRange msgSize version writeVersionNew range =
      .ok ⟨range.start + msgSize.new - msgSize.current + version.new - version.current,
        range.stop + msgSize.new - msgSize.current + version.new - version.current⟩ := by
  unfold moveRange
  rw [LaidOut.moved_eq hsize, LaidOut.moved_eq (by omega), ok_bind, ok_bind, if_pos hafter, LaidOut.moved_eq hversion,
    LaidOut.moved_eq (by omega)]
  rfl

end

/-- The part of a buffer that a range of it is in. -/
theorem slice_of_standsAt {buffer part : Bytes} {offset : ℕ} {range : Range} (h : StandsAt buffer offset part)
    (hstart : offset ≤ range.start) (hle : range.start ≤ range.stop) (hstop : range.stop ≤ offset + part.length) :
    slice buffer range = slice part ⟨range.start - offset, range.stop - offset⟩ := by
  obtain ⟨pre, post, rfl, rfl⟩ := h
  unfold slice
  dsimp only
  rw [List.drop_append, List.drop_of_length_le hstart, List.nil_append, List.drop_append_of_le_length (by omega),
    List.take_append_of_le_length (by rw [List.length_drop]; omega)]
  exact congrArg₂ List.take (by omega) rfl

namespace Layout

variable {l : Layout} {len version len' version' pre : Bytes} {range : Range}

/-- The range stands in the last nested account. -/
def Inside (l : Layout) (len version : Bytes) (range : Range) : Prop :=
  l.Stands len version range ∧ l.head.length ≤ range.start

/-- A range of one body in the other one. -/
def moveRange (l : Layout) (len version len' version' : Bytes) (range : Range) : Range :=
  ⟨l.moves len version len' version' range.start, l.moves len version len' version' range.stop⟩

/-- The parts of a body. -/
theorem standsAt_parts (l : Layout) (len version : Bytes) : StandsAt (l.body len version) 0 l.head ∧
    StandsAt (l.body len version) (l.head.length + len.length) l.before ∧
    StandsAt (l.body len version) (l.versionOffset len + version.length) l.after := by
  have hall : StandsAt (l.body len version) 0 (l.head ++ (len ++ (l.before ++ (version ++ (l.after ++ l.tail))))) := by
    have hwhole := StandsAt.whole (l.body len version)
    simp only [body, content, List.append_assoc] at hwhole ⊢
    exact hwhole
  have hbefore := hall.right.right
  have hafter := hbefore.right.right
  rw [Nat.zero_add] at hbefore hafter
  exact ⟨hall.left, hbefore.left, hafter.left⟩

theorem Stands.stop_le (h : l.Stands len version range) : range.stop ≤ (l.body len version).length := by
  obtain ⟨hle, hcases⟩ := h
  have hbody := l.length_body len version
  simp only [versionOffset] at hcases
  omega

/-- What stands before the last nested account is the same in every body. -/
theorem slice_head (hle : range.start ≤ range.stop) (hstop : range.stop ≤ l.head.length) :
    slice (l.body len version) range = slice l.head range := by
  have hslice := slice_of_standsAt (l.standsAt_parts len version).1 (Nat.zero_le _) hle (by omega)
  simpa only [Nat.sub_zero] using hslice

/-- What stands in the last nested account stands there in the other body too. -/
theorem Inside.moveRange (h : l.Inside len version range) (hfits : l.Fits len version) (len' version' : Bytes) :
    l.Inside len' version' (l.moveRange len version len' version' range) ∧
      slice (l.body len' version') (l.moveRange len version len' version' range) =
        slice (l.body len version) range := by
  obtain ⟨⟨hle, hcases⟩, hhead⟩ := h
  obtain ⟨-, hbefore, hafter⟩ := l.standsAt_parts len version
  obtain ⟨-, hbefore', hafter'⟩ := l.standsAt_parts len' version'
  have hlenPos := hfits.len.pos
  have hversionPos := hfits.version.choose_spec.pos
  have hoffset : l.versionOffset len = l.head.length + len.length + l.before.length := rfl
  have hoffset' : l.versionOffset len' = l.head.length + len'.length + l.before.length := rfl
  rcases hcases with hout | ⟨hstart, hstop⟩ | ⟨hstart, hstop⟩
  · omega
  · -- before the write version
    have hmoved : l.moveRange len version len' version' range =
        ⟨range.start + len'.length - len.length, range.stop + len'.length - len.length⟩ := by
      rw [Layout.moveRange, l.moves_before (by omega) (by omega), l.moves_before (by omega) (by omega)]
    rw [hmoved]
    refine ⟨⟨⟨by dsimp only; omega, .inr (.inl (by dsimp only; omega))⟩, by dsimp only; omega⟩, ?_⟩
    rw [slice_of_standsAt hbefore hstart hle (by omega),
      slice_of_standsAt hbefore' (by dsimp only; omega) (by dsimp only; omega) (by dsimp only; omega)]
    refine congrArg (slice l.before) (congrArg₂ Range.mk ?_ ?_)
    all_goals
      dsimp only
      omega
  · -- after it
    have hmoved : l.moveRange len version len' version' range =
        ⟨range.start + len'.length - len.length + version'.length - version.length,
          range.stop + len'.length - len.length + version'.length - version.length⟩ := by
      rw [Layout.moveRange, l.moves_after (by omega), l.moves_after (by omega)]
    rw [hmoved]
    refine ⟨⟨⟨by dsimp only; omega, .inr (.inr (by dsimp only; omega))⟩, by dsimp only; omega⟩, ?_⟩
    rw [slice_of_standsAt hafter hstart hle (by omega),
      slice_of_standsAt hafter' (by dsimp only; omega) (by dsimp only; omega) (by dsimp only; omega)]
    refine congrArg (slice l.after) (congrArg₂ Range.mk ?_ ?_)
    all_goals
      dsimp only
      omega

/-- The update moves it there. -/
theorem Inside.update (h : l.Inside len version range) (hfits : l.Fits len version) (hfits' : l.Fits len' version')
    (pre : Bytes) : Filter.moveRange ⟨len.length, len'.length⟩ ⟨version.length, version'.length⟩
        (pre.length + l.versionOffset len') (range.shift pre.length) =
      .ok ((l.moveRange len version len' version' range).shift pre.length) := by
  obtain ⟨⟨hle, hcases⟩, hhead⟩ := h
  have hlenPos := hfits.len.pos
  have hversionPos := hfits.version.choose_spec.pos
  have hversionPos' := hfits'.version.choose_spec.pos
  have hoffset : l.versionOffset len = l.head.length + len.length + l.before.length := rfl
  have hoffset' : l.versionOffset len' = l.head.length + len'.length + l.before.length := rfl
  rcases hcases with hout | ⟨hstart, hstop⟩ | ⟨hstart, hstop⟩
  · omega
  · rw [moveRange_before (by simp only [Range.shift]; omega) (by simp only [Range.shift]; omega)
      (by simp only [Range.shift]; omega), Layout.moveRange, l.moves_before (by omega) (by omega),
      l.moves_before (by omega) (by omega)]
    refine congrArg Except.ok (congrArg₂ Range.mk ?_ ?_)
    all_goals
      simp only [Range.shift]
      omega
  · rw [moveRange_after (by simp only [Range.shift]; omega) (by simp only [Range.shift]; omega)
      (by simp only [Range.shift]; omega) (by simp only [Range.shift]; omega), Layout.moveRange,
      l.moves_after (by omega), l.moves_after (by omega)]
    refine congrArg Except.ok (congrArg₂ Range.mk ?_ ?_)
    all_goals
      simp only [Range.shift]
      omega

end Layout

end Richat.Filter
