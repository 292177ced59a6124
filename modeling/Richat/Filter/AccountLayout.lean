import Richat.Filter.DecodePlaces
import Richat.Lib.ProtobufMove

/-!
# The layout of an account update

The decoder of an account stores places, so it finds other places in a buffer whose varints have other lengths:
`relocate` moves all places of what was read. `Layout` are the parts of an account update around the length of its
last nested account and around the write version in it; what is read with other bytes for these two varints is what
was read before, relocated (`Layout.decode`).
-/

namespace Richat.Filter

open Lib Lib.Protobuf

section

variable {error : DecodeError} {message field : String} {bufLen : ℕ} {buf content rest body after : Bytes}
  {wireType : WireType}

theorem decodePubkey_of_content {pubkey : Pubkey} (h : decodeVarint buf = .ok (pubkey.val.length, pubkey.val ++ rest)) :
    decodePubkey .lengthDelimited message field buf = .ok (pubkey, rest) := by
  obtain ⟨value, hvalue⟩ := pubkey
  unfold decodePubkey
  rw [h]
  simp only [bind, Except.bind, checkWireType, if_true, List.drop_left, List.take_left,
    if_neg (show ¬ (value ++ rest).length < value.length by rw [List.length_append]; omega)]
  exact dif_pos hvalue

theorem local_decodePubkey : Local (decodePubkey wireType message field) := by
  intro body after rest pubkey h after'
  obtain ⟨rfl, hcontent⟩ := decodePubkey_eq_ok h
  exact decodePubkey_of_content (content_move hcontent after')

theorem delimitedRange_of_content (h : decodeVarint buf = .ok (content.length, content ++ rest)) :
    delimitedRange error bufLen buf = .ok (place bufLen content rest, rest) := by
  unfold delimitedRange
  rw [h]
  simp only [bind, Except.bind, List.drop_left,
    if_neg (show ¬ (content ++ rest).length < content.length by rw [List.length_append]; omega)]
  rfl

theorem signatureOffset_of_content (h : decodeVarint buf = .ok (content.length, content ++ rest))
    (hsize : content.length = signatureBytes) :
    signatureOffset message field .lengthDelimited bufLen buf = .ok (bufLen - (content ++ rest).length, rest) := by
  unfold signatureOffset
  rw [h]
  simp only [bind, Except.bind, checkWireType, if_true, List.drop_left, if_neg (not_not_intro hsize),
    if_neg (show ¬ (content ++ rest).length < content.length by rw [List.length_append]; omega)]
  rfl

/-- The declared bytes are some of the bytes of the field. -/
theorem length_content_le {n : ℕ} (h : decodeVarint (body ++ after) = .ok (n, content ++ (rest ++ after))) :
    content.length + rest.length < body.length := by
  obtain ⟨part, hpart, hne, -⟩ := decodeVarint_part h
  have hlen := congrArg List.length hpart
  have hpos := List.length_pos_iff.mpr hne
  simp only [List.length_append] at hlen
  omega

end

namespace UpdateOneofLimitedDecodeAccount

/-- All places are moved. -/
def relocate (f : ℕ → ℕ) (msg : UpdateOneofLimitedDecodeAccount) : UpdateOneofLimitedDecodeAccount :=
  { msg with
    account := msg.account.map f
    data := ⟨f msg.data.start, f msg.data.stop⟩
    txnSignatureOffset := msg.txnSignatureOffset.map f
    writeVersion := f msg.writeVersion }

section

variable {f : ℕ → ℕ} {bufLen bufLen' : ℕ} {msg msg₁ msg' : UpdateOneofLimitedDecodeAccount} {tag : ℕ}
  {wireType : WireType} {buf body rest after after' content : Bytes}

/-- Where `n` bytes are left before `after`, there are `n` bytes left before `after'` at the moved place. -/
def MovesTo (f : ℕ → ℕ) (bufLen bufLen' : ℕ) (body after after' : Bytes) : Prop :=
  ∀ n ≤ body.length, f (bufLen - (n + after.length)) = bufLen' - (n + after'.length)

theorem MovesTo.suffix (h : MovesTo f bufLen bufLen' body after after') {body' : Bytes} (hsuffix : body' <:+ body) :
    MovesTo f bufLen bufLen' body' after after' := fun n hn => h n (hn.trans hsuffix.length_le)

/-- The part of a field that comes before the rest of it. -/
theorem MovesTo.inner (h : MovesTo f bufLen bufLen' body after after')
    (hlen : content.length + rest.length ≤ body.length) :
    MovesTo f bufLen bufLen' content (rest ++ after) (rest ++ after') := by
  intro n hn
  have hmove := h (n + rest.length) (by omega)
  simpa only [List.length_append, ← Nat.add_assoc] using hmove

theorem MovesTo.place (h : MovesTo f bufLen bufLen' body after after')
    (hlen : content.length + rest.length ≤ body.length) :
    (⟨f (place bufLen content (rest ++ after)).start, f (place bufLen content (rest ++ after)).stop⟩ : Range) =
      Filter.place bufLen' content (rest ++ after') := by
  have hmoves := h.inner hlen
  have hstart := hmoves content.length le_rfl
  have hstop := hmoves 0 (Nat.zero_le _)
  simp only [Nat.zero_add] at hstop
  have hlen' : ∀ after : Bytes, (content ++ after).length = content.length + after.length :=
    fun _ => List.length_append
  simp only [Filter.place, hlen', hstart, hstop]

theorem accountMergeField_other (htag : tag = 0 ∨ 8 < tag) : accountMergeField bufLen msg tag wireType buf =
    skipField wireType tag buf >>= fun buf => .ok (msg, buf) := by
  rcases htag with rfl | htag
  · rfl
  · obtain ⟨n, rfl⟩ := Nat.exists_eq_add_of_lt htag
    rw [Nat.add_comm 8 n]
    rfl

theorem accountMergeField_relocate (hf : MovesTo f bufLen bufLen' body after after')
    (h : accountMergeField bufLen msg tag wireType (body ++ after) = .ok (msg₁, rest ++ after)) :
    accountMergeField bufLen' (msg.relocate f) tag wireType (body ++ after') =
      .ok (msg₁.relocate f, rest ++ after') := by
  unfold accountMergeField at h
  split at h
  · obtain ⟨_, hread, rfl⟩ := read_of_bind h fun _ _ => rfl
    exact bind_eq_ok.mpr ⟨_, local_decodePubkey hread after', rfl⟩
  · obtain ⟨_, hread, rfl⟩ := read_of_bind h fun _ _ => rfl
    exact bind_eq_ok.mpr ⟨_, uint64.local_merge.atField _ _ hread after', rfl⟩
  · obtain ⟨_, hread, rfl⟩ := read_of_bind h fun _ _ => rfl
    exact bind_eq_ok.mpr ⟨_, local_decodePubkey hread after', rfl⟩
  · obtain ⟨_, hread, rfl⟩ := read_of_bind h fun _ _ => rfl
    exact bind_eq_ok.mpr ⟨_, bool.local_merge.atField _ _ hread after', rfl⟩
  · obtain ⟨_, hread, rfl⟩ := read_of_bind h fun _ _ => rfl
    exact bind_eq_ok.mpr ⟨_, uint64.local_merge.atField _ _ hread after', rfl⟩
  · -- the data
    obtain ⟨_, hwire, hread⟩ := bind_eq_ok.mp h
    obtain ⟨range, hrange, rfl⟩ := read_of_bind hread fun _ _ => rfl
    obtain ⟨content, hcontent, rfl⟩ := delimitedRange_eq_ok hrange
    refine bind_eq_ok.mpr ⟨_, hwire, bind_eq_ok.mpr
      ⟨_, delimitedRange_of_content (content_move hcontent after'), ?_⟩⟩
    simp only [relocate, hf.place (length_content_le hcontent).le]
    rfl
  · -- the write version
    obtain ⟨_, hread, rfl⟩ := read_of_bind h fun _ _ => rfl
    refine bind_eq_ok.mpr ⟨_, uint64.local_merge.atField _ _ hread after', ?_⟩
    have hplace := hf body.length le_rfl
    simp only [relocate, List.length_append, hplace]
    rfl
  · -- the signature
    obtain ⟨offset, hread, rfl⟩ := read_of_bind h fun _ _ => rfl
    obtain ⟨rfl, content, hcontent, hsize, rfl⟩ := signatureOffset_eq_ok hread
    refine bind_eq_ok.mpr ⟨_, signatureOffset_of_content (content_move hcontent after') hsize, ?_⟩
    have hplace := hf.inner (length_content_le hcontent).le content.length le_rfl
    have hlen : ∀ after : Bytes, (content ++ after).length = content.length + after.length :=
      fun _ => List.length_append
    simp only [relocate, hlen, Option.map_some, hplace]
    rfl
  · obtain ⟨hskip, rfl⟩ := skip_of_bind h fun _ => rfl
    refine (accountMergeField_other (by grind)).trans ?_
    exact bind_eq_ok.mpr ⟨_, skipField_move hskip after', rfl⟩

/-- A nested account is read up to its declared end. -/
theorem mergeField_account (hcontent : decodeVarint buf = .ok (content.length, content ++ rest))
    (h : Merges (accountMergeField bufLen) rest content { msg with account := some (bufLen - buf.length) } msg') :
    mergeField bufLen msg 1 .lengthDelimited buf = .ok (msg', rest) :=
  bind_eq_ok.mpr ⟨(), checkWireType_eq_ok.mpr rfl, atField_eq_ok.mpr (nested_of_merges hcontent h)⟩

theorem mergeField_other (htag : tag = 0 ∨ 4 < tag) : mergeField bufLen msg tag wireType buf =
    skipField wireType tag buf >>= fun buf => .ok (msg, buf) := by
  rcases htag with rfl | htag
  · rfl
  · obtain ⟨n, rfl⟩ := Nat.exists_eq_add_of_lt htag
    rw [Nat.add_comm 4 n]
    rfl

theorem mergeField_relocate (hf : MovesTo f bufLen bufLen' body after after')
    (h : mergeField bufLen msg tag wireType (body ++ after) = .ok (msg₁, rest ++ after)) :
    mergeField bufLen' (msg.relocate f) tag wireType (body ++ after') = .ok (msg₁.relocate f, rest ++ after') := by
  unfold mergeField at h
  split at h
  · obtain ⟨_, hwire, hread⟩ := bind_eq_ok.mp h
    obtain rfl := checkWireType_eq_ok.mp hwire
    obtain ⟨content, hcontent, hmerges⟩ := accountMerge_eq_ok (atField_eq_ok.mp hread)
    refine mergeField_account (content_move hcontent after') ?_
    have hmoved := hmerges.map (rest ++ after') (relocate f) fun hsuffix hfield =>
      accountMergeField_relocate ((hf.inner (length_content_le hcontent).le).suffix hsuffix) hfield
    have hplace := hf body.length le_rfl
    simpa only [relocate, Option.map_some, List.length_append, hplace] using hmoved
  · obtain ⟨_, hread, rfl⟩ := read_of_bind h fun _ _ => rfl
    exact bind_eq_ok.mpr ⟨_, uint64.local_merge.atField _ _ hread after', rfl⟩
  · obtain ⟨_, hread, rfl⟩ := read_of_bind h fun _ _ => rfl
    exact bind_eq_ok.mpr ⟨_, bool.local_merge.atField _ _ hread after', rfl⟩
  · obtain ⟨_, hread, rfl⟩ := read_of_bind h fun _ _ => rfl
    exact bind_eq_ok.mpr ⟨_, uint64.local_merge.atField _ _ hread after', rfl⟩
  · obtain ⟨hskip, rfl⟩ := skip_of_bind h fun _ => rfl
    refine (mergeField_other (by grind)).trans ?_
    exact bind_eq_ok.mpr ⟨_, skipField_move hskip after', rfl⟩

/-! ### Where the places are -/

/-- The range lies between the two places. -/
def Between (start stop : ℕ) (range : Range) : Prop :=
  start ≤ range.start ∧ range.start ≤ range.stop ∧ range.stop ≤ stop

def signatureRange (offset : ℕ) : Range := ⟨offset, offset + signatureBytes⟩

/-- The places that are set lie between two others. -/
structure PlacesIn (start stop : ℕ) (msg msg' : UpdateOneofLimitedDecodeAccount) : Prop where
  data : msg'.data = msg.data ∨ Between start stop msg'.data
  signature : ∀ offset ∈ msg'.txnSignatureOffset,
    offset ∈ msg.txnSignatureOffset ∨ Between start stop (signatureRange offset)
  writeVersion : msg'.writeVersion = msg.writeVersion ∨ start ≤ msg'.writeVersion ∧ msg'.writeVersion ≤ stop

theorem PlacesIn.refl (start stop : ℕ) (msg : UpdateOneofLimitedDecodeAccount) : PlacesIn start stop msg msg :=
  ⟨.inl rfl, fun _ h => .inl h, .inl rfl⟩

theorem PlacesIn.mono {start start' stop stop' : ℕ} (h : PlacesIn start stop msg msg') (hstart : start' ≤ start)
    (hstop : stop ≤ stop') : PlacesIn start' stop' msg msg' where
  data := h.data.imp_right fun ⟨h₁, h₂, h₃⟩ => ⟨hstart.trans h₁, h₂, h₃.trans hstop⟩
  signature offset hmem :=
    (h.signature offset hmem).imp_right fun ⟨h₁, h₂, h₃⟩ => ⟨hstart.trans h₁, h₂, h₃.trans hstop⟩
  writeVersion := h.writeVersion.imp_right fun ⟨h₁, h₂⟩ => ⟨hstart.trans h₁, h₂.trans hstop⟩

theorem PlacesIn.trans {start stop : ℕ} (h : PlacesIn start stop msg msg₁) (h' : PlacesIn start stop msg₁ msg') :
    PlacesIn start stop msg msg' where
  data := h'.data.elim (fun hkept => hkept ▸ h.data) .inr
  signature offset hmem := (h'.signature offset hmem).elim (h.signature offset) .inr
  writeVersion := h'.writeVersion.elim (fun hkept => hkept ▸ h.writeVersion) .inr

theorem placesIn_field (hle : (body ++ after).length ≤ bufLen)
    (h : accountMergeField bufLen msg tag wireType (body ++ after) = .ok (msg₁, rest ++ after)) :
    PlacesIn (bufLen - (body ++ after).length) (bufLen - (rest ++ after).length) msg msg₁ := by
  obtain ⟨-, hplaces⟩ := accountMergeField_eq_ok h
  refine ⟨?_, fun offset hmem => ?_, ?_⟩
  · by_cases htag : tag = 6
    · obtain ⟨content, hcontent, hdata⟩ := hplaces.dataSet htag
      have hlen := length_content_le hcontent
      refine .inr ?_
      rw [hdata]
      simp only [Between, place, List.length_append] at hle ⊢
      omega
    · exact .inl (hplaces.dataKept htag)
  · by_cases htag : tag = 8
    · obtain ⟨content, hcontent, hsize, hoffset⟩ := hplaces.signatureSet htag
      have hlen := length_content_le hcontent
      rw [hoffset] at hmem
      obtain rfl := Option.some.inj hmem
      refine .inr ?_
      simp only [Between, signatureRange, ← hsize, List.length_append] at hle ⊢
      omega
    · rw [hplaces.signatureKept htag] at hmem
      exact .inl hmem
  · by_cases htag : tag = 7
    · obtain ⟨⟨n, hvar⟩, hversion⟩ := hplaces.writeVersionSet htag
      obtain ⟨part, hpart, -⟩ := decodeVarint_part hvar
      have hlen := congrArg List.length hpart
      refine .inr ?_
      simp only [hversion, List.length_append] at hlen ⊢
      omega
    · exact .inl (hplaces.writeVersionKept htag)

theorem placesIn_account (h : Merges (accountMergeField bufLen) after content msg msg') :
    (content ++ after).length ≤ bufLen →
      PlacesIn (bufLen - (content ++ after).length) (bufLen - after.length) msg msg' := by
  induction h with
  | nil => exact fun _ => .refl ..
  | @field buf body rest tag wireType msg msg₁ msg' hkey hskip hfield _ ih =>
    intro hle
    have hlt := length_lt_of_key hkey
    obtain ⟨part, rfl, -⟩ := skipField_part hskip
    simp only [List.length_append] at hle hlt
    have hstep := placesIn_field (by simp only [List.length_append]; omega) hfield
    have hrest := ih (by simp only [List.length_append]; omega)
    refine (hstep.mono ?_ ?_).trans (hrest.mono ?_ le_rfl)
    all_goals
      simp only [List.length_append]
      omega

theorem placesIn_update (h : Merges (mergeField bufLen) after content msg msg') :
    (content ++ after).length ≤ bufLen →
      PlacesIn (bufLen - (content ++ after).length) (bufLen - after.length) msg msg' := by
  induction h with
  | nil => exact fun _ => .refl ..
  | @field buf body rest tag wireType msg msg₁ msg' hkey hskip hfield _ ih =>
    intro hle
    have hlt := length_lt_of_key hkey
    obtain ⟨part, rfl, -⟩ := skipField_part hskip
    simp only [List.length_append] at hle hlt
    have hrest := ih (by simp only [List.length_append]; omega)
    have hstep : PlacesIn (bufLen - (part ++ rest ++ after).length) (bufLen - (rest ++ after).length) msg msg₁ := by
      rcases mergeField_eq_ok hfield with ⟨-, -, content, hcontent, hmerges⟩ | ⟨-, -, -, hdata, hversion, hsignature⟩
      · have hlen := length_content_le hcontent
        simp only [List.length_append] at hlen
        have hnested := placesIn_account hmerges (by simp only [List.length_append]; omega)
        refine PlacesIn.mono ⟨hnested.data, hnested.signature, hnested.writeVersion⟩ ?_ le_rfl
        simp only [List.length_append]
        omega
      · exact ⟨.inl hdata, fun offset hmem => .inl (hsignature ▸ hmem), .inl hversion⟩
    refine (hstep.mono ?_ ?_).trans (hrest.mono ?_ le_rfl)
    all_goals
      simp only [List.length_append]
      omega

/-- Without a nested account no place is set. -/
theorem places_kept (h : Merges (mergeField bufLen) after content msg msg') (hnone : ¬ HasTag content 1) :
    msg'.account = msg.account ∧ msg'.data = msg.data ∧ msg'.writeVersion = msg.writeVersion ∧
      msg'.txnSignatureOffset = msg.txnSignatureOffset := by
  induction h with
  | nil => exact ⟨rfl, rfl, rfl, rfl⟩
  | @field buf body rest tag wireType msg msg₁ msg' hkey hskip hfield _ ih =>
    have htag : HasTag buf 1 ↔ 1 = tag ∨ HasTag rest 1 := hasTag_cons hkey hskip
    rw [htag, not_or] at hnone
    obtain ⟨h₁, h₂, h₃, h₄⟩ := ih hnone.2
    rcases mergeField_eq_ok hfield with ⟨rfl, -⟩ | ⟨-, -, haccount, hdata, hversion, hsignature⟩
    · exact absurd rfl hnone.1
    · exact ⟨h₁.trans haccount, h₂.trans hdata, h₃.trans hversion, h₄.trans hsignature⟩

/-- The place of the nested account is not one of its fields. -/
theorem account_kept (h : Merges (accountMergeField bufLen) after content msg msg') : msg'.account = msg.account := by
  induction h with
  | nil => rfl
  | field hkey hskip hfield _ ih => exact ih.trans (accountMergeField_eq_ok hfield).2.account

theorem writeVersion_kept (h : Merges (accountMergeField bufLen) after content msg msg') (hnone : ¬ HasTag content 7) :
    msg'.writeVersion = msg.writeVersion := by
  induction h with
  | nil => rfl
  | @field buf body rest tag wireType msg msg₁ msg' hkey hskip hfield _ ih =>
    have htag : HasTag buf 7 ↔ 7 = tag ∨ HasTag rest 7 := hasTag_cons hkey hskip
    rw [htag, not_or] at hnone
    exact (ih hnone.2).trans ((accountMergeField_eq_ok hfield).2.writeVersionKept (Ne.symm hnone.1))

theorem accountMergeField_version (h : accountMergeField bufLen msg 7 wireType buf = .ok (msg', rest)) :
    wireType = .varint ∧ (∃ n, decodeVarint buf = .ok (n, rest)) ∧
      msg' = { msg with writeVersion := bufLen - buf.length } := by
  obtain ⟨_, hread, rfl⟩ := read_of_bind h fun _ _ => rfl
  obtain ⟨_, hwire, hvar⟩ := bind_eq_ok.mp (atField_eq_ok.mp hread)
  obtain ⟨n, hvar, -⟩ := read_of_bind hvar fun _ _ => rfl
  exact ⟨(checkWireType_eq_ok.mp hwire).symm, ⟨n, hvar⟩, rfl⟩

theorem accountMergeField_of_varint {n : ℕ} (h : decodeVarint buf = .ok (n, rest)) :
    accountMergeField bufLen msg 7 .varint buf = .ok ({ msg with writeVersion := bufLen - buf.length }, rest) :=
  bind_eq_ok.mpr ⟨_, atField_eq_ok.mpr (bind_eq_ok.mpr ⟨(), rfl, bind_eq_ok.mpr ⟨_, h, rfl⟩⟩), rfl⟩

end

end UpdateOneofLimitedDecodeAccount

/-! ### Layouts -/

/-- The parts of an account update around the length of its last nested account and around the write version in it:
what comes before that length, what comes before and after the write version in the nested account, and what comes
after the account. -/
structure Layout where
  head : Bytes
  before : Bytes
  after : Bytes
  tail : Bytes

namespace Layout

variable (l : Layout) (len version len' version' : Bytes)

def content : Bytes := l.before ++ (version ++ l.after)

def body : Bytes := l.head ++ (len ++ (l.content version ++ l.tail))

/-- The parts fit into a buffer. -/
def Bounded : Prop := l.head.length + l.before.length + l.after.length + l.tail.length < 2 ^ 63

/-- Where the write version stands. -/
def versionOffset : ℕ := l.head.length + len.length + l.before.length

/-- The two varints are the ones of the layout. -/
structure Fits : Prop where
  len : IsVarint len (l.content version).length
  version : ∃ n, IsVarint version n

/-- Where a place of one body is in the other one. -/
def moves (place : ℕ) : ℕ :=
  if place ≤ l.head.length then place
  else if place ≤ l.versionOffset len then place + len'.length - len.length
  else place + len'.length - len.length + version'.length - version.length

/-- The range stands before the last nested account, or in it: before the write version or after it. -/
def Stands (range : Range) : Prop :=
  range.start ≤ range.stop ∧ (range.stop < l.head.length ∨
    l.head.length + len.length ≤ range.start ∧ range.stop < l.versionOffset len ∨
    l.versionOffset len + version.length ≤ range.start ∧
      range.stop ≤ l.versionOffset len + version.length + l.after.length)

/-- What is read of the body, and of the body with two other varints. -/
structure Of (msg : UpdateOneofLimitedDecodeAccount) : Prop where
  fits : l.Fits len version
  account : msg.account = some l.head.length
  writeVersion : msg.writeVersion = l.versionOffset len
  data : l.Stands len version msg.data
  signature : ∀ offset ∈ msg.txnSignatureOffset,
    l.Stands len version (UpdateOneofLimitedDecodeAccount.signatureRange offset)
  decode : ∀ len' version', l.Fits len' version' →
    limitedDecode UpdateOneofLimitedDecodeAccount.mergeField .default (l.body len' version') =
      .ok (msg.relocate (l.moves len version len' version'))

variable {l len version len' version'} {place : ℕ}

theorem moves_head (h : place ≤ l.head.length) : l.moves len version len' version' place = place := if_pos h

theorem moves_before (h : l.head.length < place) (hle : place ≤ l.versionOffset len) :
    l.moves len version len' version' place = place + len'.length - len.length := by
  rw [moves, if_neg (Nat.not_le_of_lt h), if_pos hle]

theorem moves_after (h : l.versionOffset len < place) :
    l.moves len version len' version' place =
      place + len'.length - len.length + version'.length - version.length := by
  have hle : l.head.length ≤ l.versionOffset len := by
    unfold versionOffset
    omega
  rw [moves, if_neg (by omega), if_neg (by omega)]

variable (l len version)

theorem length_content : (l.content version).length = l.before.length + version.length + l.after.length := by
  simp only [content, List.length_append]
  omega

theorem length_body : (l.body len version).length =
    l.head.length + len.length + l.before.length + version.length + l.after.length + l.tail.length := by
  simp only [body, length_content, List.length_append]
  omega

end Layout

section

open UpdateOneofLimitedDecodeAccount

section

variable {part key before versionKey after tail len version len' version' : Bytes}
  {msg₁ msg₂ msg₃ msg : UpdateOneofLimitedDecodeAccount}

/-- The runs of the nested account, in the other body. -/
theorem nested_of_runs {l : Layout} (hl : l = ⟨part ++ key, before ++ versionKey, after, tail⟩)
    (hversionKey : Takes decodeKey versionKey (7, .varint)) (hfits : l.Fits len version) (hfits' : l.Fits len' version')
    (hbefore : Merges (accountMergeField (l.body len version).length) (versionKey ++ (version ++ after) ++ tail) before
      { msg₁ with account := some l.head.length } msg₃)
    (hafter : Merges (accountMergeField (l.body len version).length) tail after
      { msg₃ with writeVersion := l.versionOffset len } msg₂) :
    Merges (accountMergeField (l.body len' version').length) tail (l.content version')
      { msg₁.relocate (l.moves len version len' version') with account := some l.head.length }
      (msg₂.relocate (l.moves len version len' version')) := by
  have hlenPos := hfits.len.pos
  have hversionPos := hfits.version.choose_spec.pos
  obtain ⟨n, hversion⟩ := hfits'.version
  have hlength := l.length_body len version
  have hlength' := l.length_body len' version'
  have hlbefore : l.before.length = before.length + versionKey.length := by rw [hl, List.length_append]
  have hlafter : l.after = after := by rw [hl]
  have hltail : l.tail = tail := by rw [hl]
  have hoffset : l.versionOffset len = l.head.length + len.length + (before.length + versionKey.length) := by
    rw [Layout.versionOffset, hlbefore]
  rw [hlafter, hltail] at hlength hlength'
  have hcontentEq : l.content version' = before ++ (versionKey ++ (version' ++ after)) := by
    rw [hl, Layout.content]
    simp only [List.append_assoc]
  have hmovesBefore : MovesTo (l.moves len version len' version') (l.body len version).length
      (l.body len' version').length before (versionKey ++ (version ++ after) ++ tail)
      (versionKey ++ (version' ++ after) ++ tail) := by
    intro n hn
    simp only [List.length_append]
    rw [l.moves_before (by omega) (by omega)]
    omega
  have hmovesAfter : MovesTo (l.moves len version len' version') (l.body len version).length
      (l.body len' version').length after tail tail := by
    intro n hn
    rw [l.moves_after (by omega)]
    omega
  have hbefore' := hbefore.map (versionKey ++ (version' ++ after) ++ tail)
    (relocate (l.moves len version len' version')) fun hsuffix =>
      accountMergeField_relocate (hmovesBefore.suffix hsuffix)
  have hafter' := hafter.map tail (relocate (l.moves len version len' version')) fun hsuffix =>
    accountMergeField_relocate (hmovesAfter.suffix hsuffix)
  have hplace : (l.body len' version').length - (version' ++ after ++ tail).length =
      l.moves len version len' version' (l.versionOffset len) := by
    rw [l.moves_before (by omega) le_rfl]
    simp only [List.length_append]
    omega
  have hfield : accountMergeField (l.body len' version').length (msg₃.relocate (l.moves len version len' version')) 7
      .varint (version' ++ after ++ tail) = .ok ({ msg₃.relocate (l.moves len version len' version') with
        writeVersion := l.moves len version len' version' (l.versionOffset len) }, after ++ tail) := by
    rw [← hplace]
    refine accountMergeField_of_varint (n := n) ?_
    rw [List.append_assoc]
    exact hversion.takes (after ++ tail)
  have hhead : relocate (l.moves len version len' version') { msg₁ with account := some l.head.length } =
      { msg₁.relocate (l.moves len version len' version') with account := some l.head.length } := by
    simp only [relocate, Option.map_some, l.moves_head le_rfl]
  rw [hcontentEq, ← hhead]
  refine hbefore'.append (.field (hversionKey (version' ++ after)) ?_ hfield hafter')
  exact bind_eq_ok.mpr ⟨_, hversion.takes after, rfl⟩

/-- The runs of the parts of a layout are runs of its parts with two other varints. -/
theorem decode_of_runs {l : Layout} (hl : l = ⟨part ++ key, before ++ versionKey, after, tail⟩)
    (hkey : Takes decodeKey key (1, .lengthDelimited)) (hkeyPos : 0 < key.length)
    (hversionKey : Takes decodeKey versionKey (7, .varint)) (hfits : l.Fits len version) (hfits' : l.Fits len' version')
    (hpart : Merges (mergeField (l.body len version).length) (key ++ (len ++ (l.content version ++ tail))) part
      .default msg₁)
    (hbefore : Merges (accountMergeField (l.body len version).length) (versionKey ++ (version ++ after) ++ tail) before
      { msg₁ with account := some l.head.length } msg₃)
    (hafter : Merges (accountMergeField (l.body len version).length) tail after
      { msg₃ with writeVersion := l.versionOffset len } msg₂)
    (htail : Merges (mergeField (l.body len version).length) [] tail msg₂ msg) :
    limitedDecode mergeField .default (l.body len' version') =
      .ok (msg.relocate (l.moves len version len' version')) := by
  have hversionPos := hfits.version.choose_spec.pos
  have hlenPos := hfits.len.pos
  have hlength := l.length_body len version
  have hlength' := l.length_body len' version'
  have hcontent := l.length_content version
  have hcontent' := l.length_content version'
  have hhead : l.head.length = part.length + key.length := by rw [hl, List.length_append]
  have hltail : l.tail = tail := by rw [hl]
  have hoffset : l.versionOffset len = l.head.length + len.length + l.before.length := rfl
  rw [hltail] at hlength hlength'
  have hbodyEq : l.body len' version' = part ++ (key ++ (len' ++ (l.content version' ++ tail))) := by
    rw [Layout.body, hl]
    simp only [List.append_assoc]
  have hplace : (l.body len' version').length - (len' ++ (l.content version' ++ tail)).length = l.head.length := by
    simp only [List.length_append]
    omega
  have hnested := nested_of_runs hl hversionKey hfits hfits' hbefore hafter
  rw [← hplace] at hnested
  have haccount := mergeField_account (hfits'.len.takes (l.content version' ++ tail)) hnested
  have hmovesPart : MovesTo (l.moves len version len' version') (l.body len version).length
      (l.body len' version').length part (key ++ (len ++ (l.content version ++ tail)))
      (key ++ (len' ++ (l.content version' ++ tail))) := by
    intro n hn
    simp only [List.length_append]
    rw [l.moves_head (by omega)]
    omega
  have hmovesTail : MovesTo (l.moves len version len' version') (l.body len version).length
      (l.body len' version').length tail [] [] := by
    intro n hn
    rw [List.length_nil, l.moves_after (by omega)]
    omega
  have hpart' := hpart.map (key ++ (len' ++ (l.content version' ++ tail)))
      (relocate (l.moves len version len' version')) fun hsuffix => mergeField_relocate (hmovesPart.suffix hsuffix)
  have htail' := htail.map [] (relocate (l.moves len version len' version')) fun hsuffix =>
    mergeField_relocate (hmovesTail.suffix hsuffix)
  have hdefault : relocate (l.moves len version len' version') .default = .default := by
    simp only [relocate, UpdateOneofLimitedDecodeAccount.default, Range.default, Option.map_none,
      l.moves_head (Nat.zero_le _)]
  rw [hdefault, ← List.append_nil (key ++ _)] at hpart'
  refine Merges.mergeAll_eq ?_
  rw [hbodyEq] at haccount hpart' htail' ⊢
  refine hpart'.append (.field (hkey _) (skipField_lengthDelimited (hfits'.len.takes _)) ?_ htail')
  rwa [List.append_nil, List.append_nil]

end

/-- What is read of an account update is moved by a layout, if the write version stands in the last nested account. -/
theorem exists_layout {body : Bytes} {msg : UpdateOneofLimitedDecodeAccount} {offset : ℕ}
    (h : limitedDecode mergeField .default body = .ok msg) (haccount : msg.account = some offset)
    (hlt : offset < msg.writeVersion) :
    ∃ l : Layout, ∃ len version, body = l.body len version ∧ l.Of len version msg := by
  have hmerges := consumes.mergeAll h
  have htag : HasTag body 1 := by
    by_contra hnone
    rw [(places_kept hmerges hnone).1] at haccount
    cases haccount
  obtain ⟨part, field, accountBody, tail, wireType, msg₁, msg₂, rfl, hpart, hkey, -, hfield, htail, hnone⟩ :=
    hmerges.split_last htag
  obtain ⟨hkeptAccount, hkeptData, hkeptVersion, hkeptSignature⟩ := places_kept htail hnone
  rcases mergeField_eq_ok hfield with ⟨-, rfl, content, hcontent, hnested⟩ | ⟨hne, -⟩
  swap
  · exact absurd rfl hne
  obtain ⟨key, rfl, hkeyPos, hkeyTakes⟩ := decodeKey_part hkey
  simp only [List.append_nil] at hcontent hnested hpart
  obtain ⟨len, rfl, hlen⟩ := IsVarint.of_decodeVarint hcontent
  have hkeyPos := List.length_pos_iff.mpr hkeyPos
  have hlenPos := hlen.pos
  have hhead := placesIn_update hpart le_rfl
  have hoffset := Option.some.inj (haccount.symm.trans (hkeptAccount.trans (account_kept hnested)))
  have hversionTag : HasTag content 7 := by
    by_contra hnone'
    have hversion := hkeptVersion.trans (writeVersion_kept hnested hnone')
    rw [hversion, hoffset] at hlt
    have hin := hhead.writeVersion
    simp only [List.length_append, UpdateOneofLimitedDecodeAccount.default] at hlt hin
    omega
  obtain ⟨before, versionField, versionBody, after, wireType, msg₃, msg₄, rfl, hbefore, hversionKey, -, hversion,
    hafter, hnone'⟩ := hnested.split_last hversionTag
  obtain ⟨rfl, ⟨n, hvar⟩, rfl⟩ := accountMergeField_version hversion
  obtain ⟨versionKey, rfl, hversionKeyPos, hversionKeyTakes⟩ := decodeKey_part hversionKey
  obtain ⟨version, hversionBody, hversionVarint⟩ := IsVarint.of_decodeVarint hvar
  rw [← List.append_assoc] at hversionBody
  obtain rfl := List.append_cancel_right hversionBody
  have hversionKeyPos := List.length_pos_iff.mpr hversionKeyPos
  have hversionPos := hversionVarint.pos
  let l : Layout := ⟨part ++ key, before ++ versionKey, after, tail⟩
  have hcontent : before ++ (versionKey ++ (version ++ after)) = l.content version := by
    simp only [l, Layout.content, List.append_assoc]
  have hbody :
      part ++ (key ++ (len ++ (before ++ (versionKey ++ (version ++ after)) ++ tail))) = l.body len version := by
    simp only [l, Layout.body, Layout.content, List.append_assoc]
  have hlength := l.length_body len version
  have hhead' : l.head.length = part.length + key.length := List.length_append
  have hbefore' : l.before.length = before.length + versionKey.length := List.length_append
  have hafter' : l.after.length = after.length := rfl
  have htail' : l.tail.length = tail.length := rfl
  have hfits : l.Fits len version := ⟨hcontent ▸ hlen, n, hversionVarint⟩
  rw [hbody] at hpart hbefore hafter htail hoffset hhead
  have haccountPlace : (l.body len version).length -
      (len ++ (before ++ (versionKey ++ (version ++ after)) ++ tail)).length = l.head.length := by
    simp only [List.length_append]
    omega
  have hversionPlace : (l.body len version).length - (version ++ after ++ tail).length = l.versionOffset len := by
    simp only [Layout.versionOffset, List.length_append]
    omega
  rw [haccountPlace] at hoffset hbefore
  rw [hversionPlace] at hafter
  -- what is set stands in the part that is read
  have hinHead : PlacesIn 0 part.length .default msg₁ := by
    refine hhead.mono (Nat.zero_le _) ?_
    simp only [List.length_append]
    omega
  have hversionOffset : l.versionOffset len = l.head.length + len.length + l.before.length := rfl
  have hinBefore : PlacesIn (l.head.length + len.length) (l.head.length + len.length + before.length)
      { msg₁ with account := some l.head.length } msg₃ := by
    refine (placesIn_account hbefore ?_).mono ?_ ?_
    all_goals
      simp only [List.length_append]
      omega
  have hinAfter : PlacesIn (l.versionOffset len + version.length) (l.versionOffset len + version.length + after.length)
      { msg₃ with writeVersion := l.versionOffset len } msg₂ := by
    refine (placesIn_account hafter ?_).mono ?_ ?_
    · simp only [List.length_append]
      omega
    · simp only [List.length_append]
      omega
    · omega
  have hstands : ∀ range, Between 0 part.length range ∨
      Between (l.head.length + len.length) (l.head.length + len.length + before.length) range ∨
      Between (l.versionOffset len + version.length) (l.versionOffset len + version.length + after.length) range →
      l.Stands len version range := by
    rintro range (⟨-, hle, hstop⟩ | ⟨hstart, hle, hstop⟩ | ⟨hstart, hle, hstop⟩)
    · exact ⟨hle, .inl (by omega)⟩
    · exact ⟨hle, .inr (.inl ⟨hstart, by omega⟩)⟩
    · exact ⟨hle, .inr (.inr ⟨hstart, hstop⟩)⟩
  refine ⟨l, len, version, hbody, hfits, ?_, ?_, ?_, ?_, fun len' version' hfits' => ?_⟩
  · rw [haccount, hoffset]
  · exact hkeptVersion.trans (writeVersion_kept hafter hnone')
  · rw [hkeptData]
    refine hstands _ ?_
    rcases hinAfter.data with hkept | hin
    · rcases hinBefore.data with hkept' | hin
      · refine .inl ?_
        rw [hkept]
        rcases hinHead.data with hkept'' | hin
        · rw [hkept', hkept'']
          exact ⟨le_rfl, le_rfl, Nat.zero_le _⟩
        · rw [hkept']
          exact hin
      · rw [hkept]
        exact .inr (.inl hin)
    · exact .inr (.inr hin)
  · intro offset hmem
    rw [hkeptSignature] at hmem
    refine hstands _ ?_
    rcases hinAfter.signature offset hmem with hmem | hin
    · rcases hinBefore.signature offset hmem with hmem | hin
      · rcases hinHead.signature offset hmem with hmem | hin
        · cases hmem
        · exact .inl hin
      · exact .inr (.inl hin)
    · exact .inr (.inr hin)
  · exact decode_of_runs rfl hkeyTakes hkeyPos hversionKeyTakes hfits hfits' (hcontent ▸ hpart) hbefore hafter htail

end

end Richat.Filter
