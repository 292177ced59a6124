import Richat.Filter.WriteVersionSpec

/-!
# Runs of updates of the write version

The parts of a layout stand around the varints of the last update, so of a run only the last write version counts. A
place of the parsed message stands in the last nested account, and is where its bytes are, or it has been moved with
the length of that account (`Tracks`).
-/

namespace Richat.Filter

open Lib Lib.Protobuf MessageParserLimited LaidOut

section

variable {l : Layout} {pre len₀ version₀ len version len' version' buffer : Bytes} {range₀ range : Range}

/-- What has become of a place of the parsed message. -/
def Tracks (l : Layout) (pre len₀ version₀ len version : Bytes) (range₀ range : Range) : Prop :=
  (∃ inner, l.Inside len version inner ∧ slice (l.body len version) inner = slice (l.body len₀ version₀) range₀ ∧
      range = inner.shift pre.length) ∨
    range₀.start ≤ range₀.stop ∧ range₀.stop < l.head.length ∧
      StaysReadable (pre ++ l.head) ⟨len₀.length, len.length⟩ (range₀.shift pre.length) ∧
      range = ⟨range₀.start + pre.length + len.length - len₀.length,
        range₀.stop + pre.length + len.length - len₀.length⟩

theorem slice_shift {part : Bytes} {offset : ℕ} (h : StandsAt buffer offset part) (hin : range.In part) :
    (range.shift offset).In buffer ∧ slice buffer (range.shift offset) = slice part range := by
  obtain ⟨hle, hstop⟩ := hin
  have hlen := h.length_le
  refine ⟨⟨by simp only [Range.shift]; omega, by simp only [Range.shift]; omega⟩, ?_⟩
  rw [slice_of_standsAt h (by simp only [Range.shift]; omega) (by simp only [Range.shift]; omega)
    (by simp only [Range.shift]; omega)]
  simp only [Range.shift, Nat.add_sub_cancel]

/-- What stands before the last nested account can be looked at there. -/
theorem staysReadable_iff (h : StandsAt buffer 0 (pre ++ l.head)) (hlen : len.length ≤ len₀.length + 1)
    (hle : range₀.start ≤ range₀.stop) (hstop : range₀.stop < l.head.length) :
    StaysReadable buffer ⟨len₀.length, len.length⟩ (range₀.shift pre.length) ↔
      StaysReadable (pre ++ l.head) ⟨len₀.length, len.length⟩ (range₀.shift pre.length) := by
  have hpart : ∀ {range : Range}, range.start ≤ range.stop → range.stop ≤ pre.length + l.head.length →
      slice buffer range = slice (pre ++ l.head) range := by
    intro range hle hstop
    have hslice := slice_of_standsAt h (Nat.zero_le _) hle (by rw [List.length_append]; omega)
    simpa only [Nat.sub_zero] using hslice
  unfold StaysReadable
  rw [hpart (by simp only [Range.shift]; omega) (by simp only [Range.shift]; omega),
    hpart (by simp only [Range.shift]; omega) (by simp only [Range.shift]; omega)]

namespace Tracks

/-- A place of the parsed message. -/
theorem start (pre : Bytes) (h : l.Stands len₀ version₀ range₀) :
    Tracks l pre len₀ version₀ len₀ version₀ range₀ (range₀.shift pre.length) := by
  by_cases hhead : range₀.stop < l.head.length
  · have hkept : ∀ n : ℕ, n + pre.length + len₀.length - len₀.length = n + pre.length :=
      fun n => Nat.add_sub_cancel ..
    refine .inr ⟨h.1, hhead, ⟨by dsimp only; omega, ?_⟩, ?_⟩
    · simp only [Range.shift, hkept]
    · simp only [Range.shift, hkept]
  · refine .inl ⟨range₀, ⟨h, ?_⟩, rfl, rfl⟩
    have hoffset : l.versionOffset len₀ = l.head.length + len₀.length + l.before.length := rfl
    obtain ⟨hle, hcases⟩ := h
    omega

/-- It is read as before. -/
theorem slice_eq (h : Tracks l pre len₀ version₀ len version range₀ range)
    (hstands : StandsAt buffer 0 (pre ++ l.body len version)) (hlen : len.length ≤ len₀.length + 1) :
    range.In buffer ∧ slice buffer range = slice (l.body len₀ version₀) range₀ := by
  rcases h with ⟨inner, hinside, hslice, rfl⟩ | ⟨hle, hstop, ⟨hsize, hslice⟩, rfl⟩
  · have hbody := hstands.right
    rw [Nat.zero_add] at hbody
    obtain ⟨hin, heq⟩ := slice_shift hbody ⟨hinside.1.1, hinside.1.stop_le⟩
    exact ⟨hin, heq.trans hslice⟩
  · have hhead : StandsAt buffer 0 (pre ++ l.head) := by
      rw [Layout.body, ← List.append_assoc] at hstands
      exact hstands.left
    have hlength := hhead.length_le
    simp only [Range.shift] at hsize hslice
    rw [List.length_append] at hlength
    refine ⟨⟨by dsimp only; omega, by dsimp only; omega⟩, ?_⟩
    rw [slice_of_standsAt hhead (Nat.zero_le _) (by dsimp only; omega)
      (by rw [List.length_append]; dsimp only; omega)]
    simp only [Nat.sub_zero]
    rw [hslice, Layout.slice_head hle hstop.le]
    have hpart := slice_shift ((StandsAt.whole (pre ++ l.head)).right) (show range₀.In l.head from ⟨hle, hstop.le⟩)
    rw [Nat.zero_add] at hpart
    exact hpart.2

/-- An update moves it. -/
theorem update (h : Tracks l pre len₀ version₀ len version range₀ range) (hfits : l.Fits len version)
    (hfits' : l.Fits len' version')
    (hstays : range₀.start ≤ range₀.stop → range₀.stop < l.head.length →
      StaysReadable (pre ++ l.head) ⟨len₀.length, len'.length⟩ (range₀.shift pre.length)) :
    ∃ range', moveRange ⟨len.length, len'.length⟩ ⟨version.length, version'.length⟩
        (pre.length + l.versionOffset len') range = .ok range' ∧ Tracks l pre len₀ version₀ len' version' range₀ range' := by
  rcases h with ⟨inner, hinside, hslice, rfl⟩ | ⟨hle, hstop, ⟨hsize, -⟩, rfl⟩
  · obtain ⟨hinside', hslice'⟩ := hinside.moveRange hfits len' version'
    exact ⟨_, hinside.update hfits hfits' pre, .inl ⟨_, hinside', hslice'.trans hslice, rfl⟩⟩
  · have hstays := hstays hle hstop
    have hsize' := hstays.1
    have hoffset : l.versionOffset len' = l.head.length + len'.length + l.before.length := rfl
    simp only [Range.shift] at hsize hsize'
    refine ⟨_, moveRange_before (by dsimp only; omega) (by dsimp only; omega) (by dsimp only; omega), .inr
      ⟨hle, hstop, hstays, ?_⟩⟩
    refine congrArg₂ Range.mk ?_ ?_
    all_goals
      dsimp only
      omega

end Tracks

/-- Where a place of the parsed message is in another body. -/
theorem Layout.Stands.moveRange (h : l.Stands len₀ version₀ range₀) (hfits : l.Fits len₀ version₀)
    (len version : Bytes) : (l.moveRange len₀ version₀ len version range₀).In (l.body len version) ∧
      slice (l.body len version) (l.moveRange len₀ version₀ len version range₀) =
        slice (l.body len₀ version₀) range₀ := by
  by_cases hhead : range₀.stop < l.head.length
  · have hle := h.1
    have hlength := l.length_body len version
    rw [Layout.moveRange, l.moves_head (by omega), l.moves_head hhead.le, Layout.slice_head hle hhead.le,
      Layout.slice_head hle hhead.le]
    exact ⟨⟨hle, by dsimp only; omega⟩, rfl⟩
  · have hinside : l.Inside len₀ version₀ range₀ := by
      refine ⟨h, ?_⟩
      have hoffset : l.versionOffset len₀ = l.head.length + len₀.length + l.before.length := rfl
      obtain ⟨hle, hcases⟩ := h
      omega
    obtain ⟨hinside', hslice⟩ := hinside.moveRange hfits len version
    exact ⟨⟨hinside'.1.1, hinside'.1.stop_le⟩, hslice⟩

end

/-! ### The messages of a run -/

/-- An account as the limited parser makes it of what is read. -/
def LimitedAccount.ofRead (data : Bytes) (createdAt : Proto.Timestamp) (range : Range)
    (message : UpdateOneofLimitedDecodeAccount) (account : ℕ) : LimitedAccount where
  pubkey := message.pubkey
  owner := message.owner
  lamports := message.lamports
  executable := message.executable
  rentEpoch := message.rentEpoch
  data := message.data.shift range.start
  txnSignatureOffset := message.txnSignatureOffset.map (· + range.start)
  writeVersion := message.writeVersion + range.start
  slot := message.slot
  isStartup := message.isStartup
  bankId := message.bankId
  createdAt
  buffer := data
  accountOffset := account + range.start
  range

/-- What a message does not take from its buffer. -/
def LimitedAccount.values (msg : LimitedAccount) : LimitedAccount :=
  { msg with
    data := .default
    txnSignatureOffset := none
    writeVersion := 0
    buffer := []
    accountOffset := 0
    range := .default }

section

open UpdateOneofLimitedDecodeAccount (signatureRange)

variable {l : Layout} {pre len₀ version₀ len version version' : Bytes} {read : UpdateOneofLimitedDecodeAccount}
  {msg₀ msg msg' : LimitedAccount}

/-- The message reads as the parsed one, up to the write version. -/
structure ReadsLike (l : Layout) (len₀ version₀ : Bytes) (read : UpdateOneofLimitedDecodeAccount)
    (msg₀ : LimitedAccount) (version : Bytes) (msg : LimitedAccount) : Prop where
  values : msg.values = msg₀.values
  data : msg.data.In msg.buffer ∧ slice msg.buffer msg.data = slice (l.body len₀ version₀) read.data
  signature : Option.Rel (fun offset₀ offset => (signatureRange offset).In msg.buffer ∧
    slice msg.buffer (signatureRange offset) = slice (l.body len₀ version₀) (signatureRange offset₀))
    read.txnSignatureOffset msg.txnSignatureOffset
  writeVersion : StandsAt msg.buffer msg.writeVersion version

namespace ReadsLike

theorem txnSignature (h : ReadsLike l len₀ version₀ read msg₀ version msg) :
    (MessageAccount.limited msg).txnSignature =
      read.txnSignatureOffset.map fun offset => slice (l.body len₀ version₀) (signatureRange offset) := by
  obtain ⟨-, -, hsignature, -⟩ := h
  simp only [MessageAccount.txnSignature]
  generalize read.txnSignatureOffset = offset₀, msg.txnSignatureOffset = offset at hsignature ⊢
  cases hsignature with
  | none => rfl
  | some hread => exact congrArg some hread.2

theorem varintAt_eq {n : ℕ} (h : ReadsLike l len₀ version₀ read msg₀ version msg) (hversion : IsVarint version n) :
    varintAt msg.buffer msg.writeVersion = some (UInt64.ofNat n) := by
  obtain ⟨post, hdrop⟩ := h.writeVersion.drop_eq
  rw [varintAt, hdrop, hversion.takes post]
  rfl

theorem readable {n : ℕ} (h : ReadsLike l len₀ version₀ read msg₀ version msg) (hversion : IsVarint version n) :
    (MessageAccount.limited msg).Readable := by
  have hvarint := h.varintAt_eq hversion
  have hle := h.writeVersion.length_le
  obtain ⟨-, hdata, hsignature, -⟩ := h
  refine ⟨⟨_, indexRange_eq hdata.1⟩, ?_, fun offset hmem => ?_⟩
  · rw [indexVarint, if_pos (by omega), hvarint]
    exact ⟨_, rfl⟩
  · generalize read.txnSignatureOffset = offset₀, msg.txnSignatureOffset = offset at hsignature hmem
    cases hsignature with
    | none => cases hmem
    | some hread =>
      obtain rfl := Option.some.inj hmem
      exact ⟨_, indexRange_eq hread.1⟩

/-- Two messages that read as the parsed one differ in their write version. -/
theorem sameBut {n n' : ℕ} {writeVersion : Option UInt64} (h : ReadsLike l len₀ version₀ read msg₀ version msg)
    (h' : ReadsLike l len₀ version₀ read msg₀ version' msg') (hversion : IsVarint version n)
    (hversion' : IsVarint version' n') (hwritten : writeVersion.or (some (UInt64.ofNat n)) = some (UInt64.ofNat n')) :
    SameBut (.limited msg) (.limited msg') writeVersion := by
  have hvalues := h'.values.trans h.values.symm
  simp only [LimitedAccount.values, LimitedAccount.mk.injEq, and_true, true_and] at hvalues
  obtain ⟨hpubkey, howner, hlamports, hexecutable, hrentEpoch, hslot, hstartup, hbankId, hcreatedAt⟩ := hvalues
  have hoffsets : (MessageAccount.limited msg').nonemptyTxnSignature =
      (MessageAccount.limited msg).nonemptyTxnSignature := by
    have hsignature := congrArg Option.isSome (h'.txnSignature.trans h.txnSignature.symm)
    simpa only [MessageAccount.txnSignature, MessageAccount.nonemptyTxnSignature, Option.isSome_map] using hsignature
  refine ⟨h'.readable hversion', ?_, hstartup, congrArg MessageBlockCreatedAt.limited hcreatedAt⟩
  unfold MessageAccount.view
  rw [h'.txnSignature, h.txnSignature, hoffsets]
  simp only [MessageAccount.slot, MessageAccount.bankId, MessageAccount.pubkey, MessageAccount.owner,
    MessageAccount.lamports, MessageAccount.executable, MessageAccount.rentEpoch, MessageAccount.data,
    MessageAccount.writeVersion, hpubkey, howner, hlamports, hexecutable, hrentEpoch, hslot, hbankId, h.data.2,
    h'.data.2, h.varintAt_eq hversion, h'.varintAt_eq hversion', hwritten]

end ReadsLike

/-! ### Runs -/

theorem rel_imp {α β : Type} {r s : α → β → Prop} {a : Option α} {b : Option β} (h : Option.Rel r a b)
    (himp : ∀ x y, r x y → s x y) : Option.Rel s a b := by
  cases h with
  | none => exact .none
  | some h => exact .some (himp _ _ h)

theorem rel_mapM {α β γ ε : Type} {r : α → β → Prop} {s : α → γ → Prop} {f : β → Except ε γ} {a : Option α}
    {b : Option β} (h : Option.Rel r a b) (hstep : ∀ x ∈ a, ∀ y, r x y → ∃ z, f y = .ok z ∧ s x z) :
    ∃ c, b.mapM f = .ok c ∧ Option.Rel s a c := by
  cases h with
  | none => exact ⟨none, rfl, .none⟩
  | some h =>
    obtain ⟨z, hz, hs⟩ := hstep _ rfl _ h
    refine ⟨some z, ?_, .some hs⟩
    rw [Option.mapM_some, hz]
    rfl

/-- A place before the last nested account reads the same for a write version of any length. -/
def Stays (l : Layout) (pre len₀ : Bytes) (range₀ : Range) : Prop :=
  range₀.start ≤ range₀.stop → range₀.stop < l.head.length → ∀ writeVersion,
    StaysReadable (pre ++ l.head) (sizeLen l len₀ writeVersion) (range₀.shift pre.length)

/-- The message after some updates. -/
structure Reached (l : Layout) (pre len₀ version₀ : Bytes) (read : UpdateOneofLimitedDecodeAccount)
    (msg₀ : LimitedAccount) (len version : Bytes) (msg : LimitedAccount) : Prop where
  laidOut : LaidOut l pre len version msg
  len_le : len.length ≤ len₀.length + 1
  values : msg.values = msg₀.values
  data : Tracks l pre len₀ version₀ len version read.data msg.data
  signature : Option.Rel (fun offset₀ offset =>
    Tracks l pre len₀ version₀ len version (signatureRange offset₀) (signatureRange offset))
    read.txnSignatureOffset msg.txnSignatureOffset

theorem Tracks.signature {len' : Bytes} {offset₀ offset : ℕ}
    (h : Tracks l pre len₀ version₀ len version (signatureRange offset₀) (signatureRange offset))
    (hfits : l.Fits len version) (hfits' : l.Fits len' version')
    (hstays : (signatureRange offset₀).start ≤ (signatureRange offset₀).stop →
      (signatureRange offset₀).stop < l.head.length →
      StaysReadable (pre ++ l.head) ⟨len₀.length, len'.length⟩ ((signatureRange offset₀).shift pre.length)) :
    ∃ offset', moveOffset ⟨len.length, len'.length⟩ ⟨version.length, version'.length⟩
        (pre.length + l.versionOffset len') offset = .ok offset' ∧
      Tracks l pre len₀ version₀ len' version' (signatureRange offset₀) (signatureRange offset') := by
  obtain ⟨range, hmoved, htracks⟩ := h.update hfits hfits' hstays
  rw [moveRange_signature] at hmoved
  cases hoffset : moveOffset ⟨len.length, len'.length⟩ ⟨version.length, version'.length⟩
      (pre.length + l.versionOffset len') offset with
  | error e =>
    rw [hoffset] at hmoved
    cases hmoved
  | ok offset' =>
    rw [hoffset] at hmoved
    obtain rfl := Except.ok.inj hmoved
    exact ⟨offset', rfl, htracks⟩

namespace Reached

theorem readsLike (h : Reached l pre len₀ version₀ read msg₀ len version msg) :
    ReadsLike l len₀ version₀ read msg₀ version msg where
  values := h.values
  data := h.data.slice_eq h.laidOut.stands h.len_le
  signature := rel_imp h.signature fun _ _ htracks => htracks.slice_eq h.laidOut.stands h.len_le
  writeVersion := h.laidOut.parts.2.2.2.1

/-- What an update does. -/
theorem step (h : Reached l pre len₀ version₀ read msg₀ len version msg) (hfits₀ : l.Fits len₀ version₀)
    (hbound : l.Bounded) (hdata : Stays l pre len₀ read.data)
    (hsignature : ∀ offset ∈ read.txnSignatureOffset, Stays l pre len₀ (signatureRange offset))
    (writeVersion : UInt64) : ∃ msg', msg.updateWriteVersion writeVersion = .ok msg' ∧ Reached l pre len₀ version₀ read msg₀
      (newLen l writeVersion) (encodeVarint writeVersion.toNat) msg' := by
  obtain ⟨-, hle, hfits⟩ := length_newLen hfits₀ writeVersion hbound
  obtain ⟨buffer, hstands, heq⟩ := h.laidOut.update_eq writeVersion hbound
  obtain ⟨data, hmoved, hdataTracks⟩ := h.data.update h.laidOut.fits hfits fun hle hstop =>
    hdata hle hstop writeVersion
  obtain ⟨signature, hmapped, hsignatureTracks⟩ := rel_mapM h.signature fun offset₀ hmem offset htracks =>
    htracks.signature h.laidOut.fits hfits fun hle hstop => hsignature offset₀ hmem hle hstop writeVersion
  have hmoved : moveRange (sizeLen l len writeVersion) (versionLen version writeVersion)
      (pre.length + l.versionOffset (newLen l writeVersion)) msg.data = .ok data := hmoved
  have hmapped : msg.txnSignatureOffset.mapM (moveOffset (sizeLen l len writeVersion) (versionLen version writeVersion)
      (pre.length + l.versionOffset (newLen l writeVersion))) = .ok signature := hmapped
  rw [heq, hmoved, ok_bind, hmapped, ok_bind]
  refine ⟨_, rfl, ?_, hle, h.values, hdataTracks, hsignatureTracks⟩
  exact ⟨hfits, hstands, h.laidOut.accountOffset, rfl, rfl⟩

/-- What a run does: the last write version stands in the message. -/
theorem run {size : ℕ} (hfits₀ : l.Fits len₀ version₀) (hbound : l.Bounded) (hdata : Stays l pre len₀ read.data)
    (hsignature : ∀ offset ∈ read.txnSignatureOffset, Stays l pre len₀ (signatureRange offset)) :
    ∀ {writeVersions : List UInt64} {len version : Bytes} {msg : LimitedAccount} {n : ℕ},
      Reached l pre len₀ version₀ read msg₀ len version msg → IsVarint version n →
      ∃ msg' len' version' n', SizedAccount.updateWriteVersions ⟨.limited msg, size⟩ writeVersions =
          .ok ⟨.limited msg', size⟩ ∧ Reached l pre len₀ version₀ read msg₀ len' version' msg' ∧
        IsVarint version' n' ∧ writeVersions.getLast?.or (some (UInt64.ofNat n)) = some (UInt64.ofNat n') := by
  intro writeVersions
  induction writeVersions with
  | nil => exact fun h hversion => ⟨_, _, _, _, rfl, h, hversion, rfl⟩
  | cons writeVersion writeVersions ih =>
    intro len version msg n h hversion
    obtain ⟨msg₁, hupdate, h₁⟩ := h.step hfits₀ hbound hdata hsignature writeVersion
    obtain ⟨msg', len', version', n', hrun, h', hversion', hlast⟩ := ih h₁ (IsVarint.encode writeVersion.toNat_lt)
    refine ⟨msg', len', version', n', ?_, h', hversion', ?_⟩
    · have hstep : SizedAccount.updateWriteVersion ⟨.limited msg, size⟩ writeVersion = .ok ⟨.limited msg₁, size⟩ :=
        bind_eq_ok.mpr ⟨msg₁, hupdate, rfl⟩
      rw [SizedAccount.updateWriteVersions, List.foldlM_cons, hstep, ok_bind]
      exact hrun
    · rw [UInt64.ofNat_toNat] at hlast
      rw [List.getLast?_cons, ← hlast]
      cases writeVersions.getLast? <;> rfl

end Reached

end

end Richat.Filter
