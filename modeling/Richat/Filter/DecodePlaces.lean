import Richat.Filter.Containment

/-!
# What the limited decoders take

Each decoder of a field takes as much of it as there is (`Consumes`), and the places that it stores stand in the field.
Only the nested messages of a transaction may end elsewhere than where they declare to: `mergeFieldExact` is the
decoder that looks, and it accepts the infos that are `Framed`.
-/

namespace Richat.Filter

open Lib Lib.Protobuf

/-! ### The readers take whole fields -/

section

variable {wireType : WireType} {tag bufLen : ℕ} {buf rest : Bytes} {error : DecodeError} {message field : String}

/-- The range is the one of the content. -/
theorem delimitedRange_eq_ok {range : Range} (h : delimitedRange error bufLen buf = .ok (range, rest)) :
    ∃ content, decodeVarint buf = .ok (content.length, content ++ rest) ∧ range = place bufLen content rest := by
  obtain ⟨⟨len, buf₁⟩, hlen, hbody⟩ := bind_eq_ok.mp h
  dsimp only at hbody
  split at hbody
  · cases hbody
  · rename_i hle
    obtain ⟨content, after, hcontent, rfl, rfl⟩ := exists_content hlen hle
    rw [List.drop_left] at hbody
    obtain ⟨rfl, rfl⟩ := Prod.mk.inj (Except.ok.inj hbody)
    exact ⟨content, hcontent, rfl⟩

theorem delimitedRange_skips {range : Range} (h : delimitedRange error bufLen buf = .ok (range, rest)) :
    skipField .lengthDelimited tag buf = .ok rest := by
  obtain ⟨content, hcontent, -⟩ := delimitedRange_eq_ok h
  exact skipField_lengthDelimited hcontent

theorem decodePubkey_eq_ok {pubkey : Pubkey} (h : decodePubkey wireType message field buf = .ok (pubkey, rest)) :
    wireType = .lengthDelimited ∧ decodeVarint buf = .ok (pubkey.val.length, pubkey.val ++ rest) := by
  obtain ⟨_, hwire, hread⟩ := bind_eq_ok.mp h
  obtain ⟨⟨len, buf₁⟩, hlen, hbody⟩ := bind_eq_ok.mp hread
  dsimp only at hbody
  split at hbody
  · cases hbody
  · rename_i hle
    obtain ⟨content, after, hcontent, rfl, rfl⟩ := exists_content hlen hle
    split at hbody
    · obtain ⟨rfl, rfl⟩ := Prod.mk.inj (Except.ok.inj hbody)
      refine ⟨(checkWireType_eq_ok.mp hwire).symm, ?_⟩
      simpa only [List.take_left, List.drop_left] using hcontent
    · cases hbody

theorem decodePubkey_skips {pubkey : Pubkey} (h : decodePubkey wireType message field buf = .ok (pubkey, rest)) :
    skipField wireType tag buf = .ok rest := by
  obtain ⟨rfl, hcontent⟩ := decodePubkey_eq_ok h
  exact skipField_lengthDelimited hcontent

theorem signatureOffset_eq_ok {offset : ℕ} (h : signatureOffset message field wireType bufLen buf = .ok (offset, rest)) :
    wireType = .lengthDelimited ∧ ∃ content, decodeVarint buf = .ok (content.length, content ++ rest) ∧
      content.length = signatureBytes ∧ offset = bufLen - (content ++ rest).length := by
  obtain ⟨_, hwire, hread⟩ := bind_eq_ok.mp h
  obtain ⟨⟨len, buf₁⟩, hlen, hbody⟩ := bind_eq_ok.mp hread
  dsimp only at hbody
  split at hbody
  · cases hbody
  · rename_i hle
    obtain ⟨content, after, hcontent, rfl, rfl⟩ := exists_content hlen hle
    split at hbody
    · cases hbody
    · rename_i hsize
      rw [List.drop_left] at hbody
      obtain ⟨rfl, rfl⟩ := Prod.mk.inj (Except.ok.inj hbody)
      exact ⟨(checkWireType_eq_ok.mp hwire).symm, content, hcontent, not_not.mp hsize, rfl⟩

theorem signatureOffset_skips {offset : ℕ} (h : signatureOffset message field wireType bufLen buf = .ok (offset, rest)) :
    skipField wireType tag buf = .ok rest := by
  obtain ⟨rfl, content, hcontent, -⟩ := signatureOffset_eq_ok h
  exact skipField_lengthDelimited hcontent

end

theorem consumes_timestamp : Consumes Timestamp.mergeField := by
  intro msg tag wireType buf msg' rest h
  unfold Timestamp.mergeField at h
  split at h
  · obtain ⟨_, hread, -⟩ := read_of_bind h fun _ _ => rfl
    exact int64.merge_skips (atField_eq_ok.mp hread)
  · obtain ⟨_, hread, -⟩ := read_of_bind h fun _ _ => rfl
    exact int32.merge_skips (atField_eq_ok.mp hread)
  · exact (skip_of_bind h fun _ => rfl).1

/-! ### The update -/

namespace SubscribeUpdateLimitedDecode

variable {bufLen : ℕ} {msg msg' : SubscribeUpdateLimitedDecode} {tag : ℕ} {wireType : WireType} {buf rest : Bytes}

/-- A nested message of the update. -/
def oneofOf (bufLen tag : ℕ) (content rest : Bytes) : UpdateOneofLimitedDecode :=
  ⟨(UpdateKind.ofTag tag).getD .ping, place bufLen content rest⟩

/-- A field of the update is skipped, or it is the update itself. -/
theorem mergeField_eq_ok (h : mergeField bufLen msg tag wireType buf = .ok (msg', rest)) :
    wireType = .lengthDelimited ∧ skipField wireType tag buf = .ok rest ∧
      (IsUpdateTag tag → ∃ content, decodeVarint buf = .ok (content.length, content ++ rest) ∧
        msg'.updateOneof = some (oneofOf bufLen tag content rest)) ∧
      (¬ IsUpdateTag tag → msg'.updateOneof = msg.updateOneof) := by
  unfold mergeField at h
  obtain ⟨_, hwire, hread⟩ := bind_eq_ok.mp h
  obtain rfl := checkWireType_eq_ok.mp hwire
  refine ⟨rfl, ?_⟩
  split at hread
  · rename_i htag
    obtain ⟨range, hrange, rfl⟩ := read_of_bind hread fun _ _ => rfl
    refine ⟨delimitedRange_skips hrange, fun hupdate => ?_, fun _ => rfl⟩
    rw [htag] at hupdate
    cases hupdate
  · split at hread
    · rename_i kind hkind
      obtain ⟨update, hupdate, rfl⟩ := read_of_bind hread fun _ _ => rfl
      obtain ⟨⟨range, buf₁⟩, hrange, hmerge⟩ := bind_eq_ok.mp (atField_eq_ok.mp hupdate)
      dsimp only at hmerge
      split at hmerge
      · cases hmerge
      · obtain ⟨rfl, rfl⟩ := Prod.mk.inj (Except.ok.inj hmerge)
        obtain ⟨content, hcontent, rfl⟩ := delimitedRange_eq_ok hrange
        refine ⟨skipField_lengthDelimited hcontent, fun _ => ⟨content, hcontent, ?_⟩, fun hno => ?_⟩
        · rw [oneofOf, hkind]
          rfl
        · exact absurd (by rw [IsUpdateTag, hkind]; rfl) hno
    · rename_i hnone
      have hno : ¬ IsUpdateTag tag := by
        rw [IsUpdateTag, Option.isSome_iff_exists]
        rintro ⟨kind, hkind⟩
        exact hnone kind hkind
      suffices hskip : skipField .lengthDelimited tag buf = .ok rest ∧ msg'.updateOneof = msg.updateOneof from
        ⟨hskip.1, fun hyes => absurd hyes hno, fun _ => hskip.2⟩
      split at hread
      · obtain ⟨createdAt, hmerge, rfl⟩ := read_of_bind hread fun _ _ => rfl
        exact ⟨message.merge_skips consumes_timestamp (atField_eq_ok.mp hmerge), rfl⟩
      · split at hread
        · obtain ⟨hskip, rfl⟩ := skip_of_bind hread fun _ => rfl
          exact ⟨hskip, rfl⟩
        · obtain ⟨hskip, rfl⟩ := skip_of_bind hread fun _ => rfl
          exact ⟨hskip, rfl⟩

theorem consumes : Consumes (mergeField bufLen) := fun h => (mergeField_eq_ok h).2.1

end SubscribeUpdateLimitedDecode

section

variable {data body after : Bytes} {kind : UpdateKind} {range : Range} {update : SubscribeUpdateLimitedDecode}

/-- The update that is found is the last one of its tags. -/
theorem updateOneof_iff (h : limitedDecode SubscribeUpdateLimitedDecode.mergeField .default data = .ok update) :
    update.updateOneof = some ⟨kind, range⟩ ↔
      ∃ body after, IsUpdate data kind body after ∧ range = place data.length body after := by
  have hmerges := SubscribeUpdateLimitedDecode.consumes.mergeAll h
  rw [hmerges.last_iff (·.updateOneof) IsUpdateTag (SubscribeUpdateLimitedDecode.oneofOf data.length)]
  · constructor
    · rintro (⟨tag, body, after, hlast, heq⟩ | ⟨-, hnone⟩)
      · rw [SubscribeUpdateLimitedDecode.oneofOf, List.append_nil] at heq
        injection heq with hkind hrange
        refine ⟨body, after, ⟨tag, hlast, ?_⟩, hrange⟩
        obtain ⟨kind', hkind'⟩ := Option.isSome_iff_exists.mp hlast.1
        rw [hkind, hkind', Option.getD_some]
      · cases hnone
    · rintro ⟨body, after, ⟨tag, hlast, hkind⟩, rfl⟩
      refine .inl ⟨tag, body, after, hlast, ?_⟩
      rw [SubscribeUpdateLimitedDecode.oneofOf, List.append_nil, hkind, Option.getD_some]
  · intro msg tag wireType buf msg₁ rest htag hfield
    obtain ⟨rfl, -, hset, -⟩ := SubscribeUpdateLimitedDecode.mergeField_eq_ok hfield
    exact ⟨rfl, hset htag⟩
  · intro msg tag wireType buf msg₁ rest htag hfield
    exact (SubscribeUpdateLimitedDecode.mergeField_eq_ok hfield).2.2.2 htag

theorem place_in (h : body ++ after <:+ data) : (place data.length body after).In data := by
  have hle := h.length_le
  rw [List.length_append] at hle
  constructor <;> simp only [place, List.length_append] <;> omega

theorem isUpdateRange (h : limitedDecode SubscribeUpdateLimitedDecode.mergeField .default data = .ok update)
    (hupdate : update.updateOneof = some ⟨kind, range⟩) : IsUpdateRange data kind range := by
  obtain ⟨body, after, hbody, rfl⟩ := (updateOneof_iff h).mp hupdate
  exact ⟨place_in hbody.choose_spec.1.2.1.suffix, body, after, hbody, rfl⟩

/-- There is one nested message. -/
theorem IsUpdate.eq_slice (h : IsUpdate data kind body after)
    (hdecode : limitedDecode SubscribeUpdateLimitedDecode.mergeField .default data = .ok update) :
    update.updateOneof = some ⟨kind, place data.length body after⟩ ∧ slice data (place data.length body after) = body :=
  ⟨(updateOneof_iff hdecode).mpr ⟨body, after, h, rfl⟩, slice_place h.choose_spec.1.2.1.suffix⟩

end

/-- A range that the last field of a tag sets. -/
theorem last_place_iff {α : Type} {mergeField : α → ℕ → WireType → Bytes → Except DecodeError (α × Bytes)}
    {body : Bytes} {msg msg' : α} {bufLen tag₀ : ℕ} {get : α → Option Range}
    (h : Merges mergeField [] body msg msg') (hnone : get msg = none)
    (hfield : ∀ msg tag wireType buf msg₁ rest, mergeField msg tag wireType buf = .ok (msg₁, rest) →
      (tag = tag₀ → wireType = .lengthDelimited ∧ ∃ content,
        decodeVarint buf = .ok (content.length, content ++ rest) ∧ get msg₁ = some (place bufLen content rest)) ∧
      (tag ≠ tag₀ → get msg₁ = get msg)) {range : Range} :
    get msg' = some range ↔
      ∃ content after, LastMessage (· = tag₀) body tag₀ content after ∧ range = place bufLen content after := by
  rw [h.last_iff get (· = tag₀) (fun _ => place bufLen)
    (fun msg tag wireType buf msg₁ rest htag hread => (hfield msg tag wireType buf msg₁ rest hread).1 htag)
    (fun msg tag wireType buf msg₁ rest htag hread => (hfield msg tag wireType buf msg₁ rest hread).2 htag)]
  constructor
  · rintro (⟨tag, content, after, hlast, rfl⟩ | ⟨-, hsome⟩)
    · obtain rfl := hlast.1
      rw [List.append_nil]
      exact ⟨content, after, hlast, rfl⟩
    · rw [hnone] at hsome
      cases hsome
  · rintro ⟨content, after, hlast, rfl⟩
    refine .inl ⟨tag₀, content, after, hlast, ?_⟩
    rw [List.append_nil]

/-- A part of the content of a field. -/
theorem inField_of_suffix {body content after value rest : Bytes} {tag : ℕ} (h : HasMessage body tag content after)
    (hvalue : value ++ rest <:+ content ++ after) (hrest : after.length ≤ rest.length) :
    (place body.length value rest).In body ∧ (place body.length value rest).InField body 0 tag := by
  have hsuffix := hvalue.trans h.suffix
  have hle := hvalue.length_le
  have hle' := h.suffix.length_le
  refine ⟨place_in hsuffix, fun _ => ⟨content, after, h, fun _ => ?_⟩⟩
  simp only [place, Range.shift, List.length_append] at hle hle' ⊢
  omega

theorem varintStands_of_suffix {body field rest : Bytes} {n : ℕ} (h : field <:+ body)
    (hvar : decodeVarint field = .ok (n, rest)) :
    VarintStands body (body.length - field.length) (body.length - rest.length) ∧
      body.length - field.length < body.length - rest.length := by
  obtain ⟨part, rfl, hne, -, -⟩ := decodeVarint_part hvar
  have hpos := List.length_pos_iff.mpr hne
  have hle := h.length_le
  rw [List.length_append] at hle
  refine ⟨⟨n, rest, ?_, by omega⟩, ?_⟩
  · rw [← List.suffix_iff_eq_drop.mp h]
    exact hvar
  · rw [List.length_append]
    omega

/-! ### Slots -/

namespace UpdateOneofLimitedDecodeSlot

variable {bufLen : ℕ} {msg msg' : UpdateOneofLimitedDecodeSlot} {tag : ℕ} {wireType : WireType} {buf rest : Bytes}

theorem mergeField_eq_ok (h : mergeField bufLen msg tag wireType buf = .ok (msg', rest)) :
    skipField wireType tag buf = .ok rest ∧
      (tag = 4 → wireType = .lengthDelimited ∧ ∃ content, decodeVarint buf = .ok (content.length, content ++ rest) ∧
        msg'.deadError = some (place bufLen content rest)) ∧
      (tag ≠ 4 → msg'.deadError = msg.deadError) := by
  unfold mergeField at h
  split at h
  · obtain ⟨_, hread, rfl⟩ := read_of_bind h fun _ _ => rfl
    exact ⟨uint64.merge_skips (atField_eq_ok.mp hread), by simp, fun _ => rfl⟩
  · obtain ⟨_, hread, rfl⟩ := read_of_bind h fun _ _ => rfl
    exact ⟨uint64.merge_skips (atField_eq_ok.mp hread), by simp, fun _ => rfl⟩
  · obtain ⟨_, hread, rfl⟩ := read_of_bind h fun _ _ => rfl
    exact ⟨int32.merge_skips (atField_eq_ok.mp hread), by simp, fun _ => rfl⟩
  · obtain ⟨_, hwire, hread⟩ := bind_eq_ok.mp h
    obtain rfl := checkWireType_eq_ok.mp hwire
    obtain ⟨range, hrange, rfl⟩ := read_of_bind hread fun _ _ => rfl
    obtain ⟨content, hcontent, rfl⟩ := delimitedRange_eq_ok hrange
    exact ⟨skipField_lengthDelimited hcontent, fun _ => ⟨rfl, content, hcontent, rfl⟩, fun hne => absurd rfl hne⟩
  · obtain ⟨_, hread, rfl⟩ := read_of_bind h fun _ _ => rfl
    exact ⟨uint64.merge_skips (atField_eq_ok.mp hread), by simp, fun _ => rfl⟩
  · rename_i htag _
    obtain ⟨hskip, rfl⟩ := skip_of_bind h fun _ => rfl
    exact ⟨hskip, fun heq => absurd heq htag, fun _ => rfl⟩

theorem consumes : Consumes (mergeField bufLen) := fun h => (mergeField_eq_ok h).1

/-- The text is the one of the last field. -/
theorem deadError_iff {body : Bytes} (h : limitedDecode mergeField .default body = .ok msg') {text : Range} :
    msg'.deadError = some text ↔
      ∃ content after, LastMessage (· = 4) body 4 content after ∧ text = place body.length content after :=
  last_place_iff (consumes.mergeAll h) rfl fun _ _ _ _ _ _ hfield => (mergeField_eq_ok hfield).2

end UpdateOneofLimitedDecodeSlot

/-! ### Transactions -/

namespace UpdateOneofLimitedDecodeTransaction

variable {bufLen : ℕ} {msg msg' : UpdateOneofLimitedDecodeTransaction} {tag : ℕ} {wireType : WireType}
  {buf rest : Bytes}

theorem mergeField_eq_ok (h : mergeField bufLen msg tag wireType buf = .ok (msg', rest)) :
    skipField wireType tag buf = .ok rest ∧
      (tag = 1 → wireType = .lengthDelimited ∧ ∃ content, decodeVarint buf = .ok (content.length, content ++ rest) ∧
        msg'.transaction = some (place bufLen content rest)) ∧
      (tag ≠ 1 → msg'.transaction = msg.transaction) := by
  unfold mergeField at h
  split at h
  · obtain ⟨_, hwire, hread⟩ := bind_eq_ok.mp h
    obtain rfl := checkWireType_eq_ok.mp hwire
    obtain ⟨range, hrange, rfl⟩ := read_of_bind hread fun _ _ => rfl
    obtain ⟨content, hcontent, rfl⟩ := delimitedRange_eq_ok hrange
    exact ⟨skipField_lengthDelimited hcontent, fun _ => ⟨rfl, content, hcontent, rfl⟩, fun hne => absurd rfl hne⟩
  · obtain ⟨_, hread, rfl⟩ := read_of_bind h fun _ _ => rfl
    exact ⟨uint64.merge_skips (atField_eq_ok.mp hread), by simp, fun _ => rfl⟩
  · obtain ⟨_, hread, rfl⟩ := read_of_bind h fun _ _ => rfl
    exact ⟨uint64.merge_skips (atField_eq_ok.mp hread), by simp, fun _ => rfl⟩
  · rename_i htag _ _
    obtain ⟨hskip, rfl⟩ := skip_of_bind h fun _ => rfl
    exact ⟨hskip, fun heq => absurd heq htag, fun _ => rfl⟩

theorem consumes : Consumes (mergeField bufLen) := fun h => (mergeField_eq_ok h).1

theorem transaction_iff {body : Bytes} (h : limitedDecode mergeField .default body = .ok msg') {range : Range} :
    msg'.transaction = some range ↔
      ∃ content after, LastMessage (· = 1) body 1 content after ∧ range = place body.length content after :=
  last_place_iff (consumes.mergeAll h) rfl fun _ _ _ _ _ _ hfield => (mergeField_eq_ok hfield).2

end UpdateOneofLimitedDecodeTransaction

/-! ### Accounts -/

namespace UpdateOneofLimitedDecodeAccount

variable {bufLen : ℕ} {msg msg' : UpdateOneofLimitedDecodeAccount} {tag : ℕ} {wireType : WireType} {buf rest : Bytes}

/-- What a field of the nested account does to the places. -/
structure FieldPlaces (bufLen : ℕ) (msg msg' : UpdateOneofLimitedDecodeAccount) (tag : ℕ) (buf rest : Bytes) : Prop where
  account : msg'.account = msg.account
  dataSet : tag = 6 → ∃ content, decodeVarint buf = .ok (content.length, content ++ rest) ∧
    msg'.data = place bufLen content rest
  dataKept : tag ≠ 6 → msg'.data = msg.data
  writeVersionSet : tag = 7 → (∃ n, decodeVarint buf = .ok (n, rest)) ∧ msg'.writeVersion = bufLen - buf.length
  writeVersionKept : tag ≠ 7 → msg'.writeVersion = msg.writeVersion
  signatureSet : tag = 8 → ∃ content, decodeVarint buf = .ok (content.length, content ++ rest) ∧
    content.length = signatureBytes ∧ msg'.txnSignatureOffset = some (bufLen - (content ++ rest).length)
  signatureKept : tag ≠ 8 → msg'.txnSignatureOffset = msg.txnSignatureOffset

theorem accountMergeField_eq_ok (h : accountMergeField bufLen msg tag wireType buf = .ok (msg', rest)) :
    skipField wireType tag buf = .ok rest ∧ FieldPlaces bufLen msg msg' tag buf rest := by
  unfold accountMergeField at h
  split at h
  · obtain ⟨_, hread, rfl⟩ := read_of_bind h fun _ _ => rfl
    exact ⟨decodePubkey_skips hread, by constructor <;> simp⟩
  · obtain ⟨_, hread, rfl⟩ := read_of_bind h fun _ _ => rfl
    exact ⟨uint64.merge_skips (atField_eq_ok.mp hread), by constructor <;> simp⟩
  · obtain ⟨_, hread, rfl⟩ := read_of_bind h fun _ _ => rfl
    exact ⟨decodePubkey_skips hread, by constructor <;> simp⟩
  · obtain ⟨_, hread, rfl⟩ := read_of_bind h fun _ _ => rfl
    exact ⟨bool.merge_skips (atField_eq_ok.mp hread), by constructor <;> simp⟩
  · obtain ⟨_, hread, rfl⟩ := read_of_bind h fun _ _ => rfl
    exact ⟨uint64.merge_skips (atField_eq_ok.mp hread), by constructor <;> simp⟩
  · obtain ⟨_, hwire, hread⟩ := bind_eq_ok.mp h
    obtain rfl := checkWireType_eq_ok.mp hwire
    obtain ⟨range, hrange, rfl⟩ := read_of_bind hread fun _ _ => rfl
    obtain ⟨content, hcontent, rfl⟩ := delimitedRange_eq_ok hrange
    refine ⟨skipField_lengthDelimited hcontent, ?_⟩
    constructor <;> simp [hcontent]
  · obtain ⟨_, hread, rfl⟩ := read_of_bind h fun _ _ => rfl
    obtain ⟨_, hwire, hvar⟩ := bind_eq_ok.mp (atField_eq_ok.mp hread)
    obtain rfl := checkWireType_eq_ok.mp hwire
    obtain ⟨n, hvar, -⟩ := read_of_bind hvar fun _ _ => rfl
    refine ⟨bind_eq_ok.mpr ⟨_, hvar, rfl⟩, ?_⟩
    constructor <;> simp [hvar]
  · obtain ⟨offset, hread, rfl⟩ := read_of_bind h fun _ _ => rfl
    obtain ⟨rfl, content, hcontent, hsize, rfl⟩ := signatureOffset_eq_ok hread
    refine ⟨skipField_lengthDelimited hcontent, ?_⟩
    constructor <;> simp [hcontent, hsize]
  · rename_i h6 h7 h8
    obtain ⟨hskip, rfl⟩ := skip_of_bind h fun _ => rfl
    exact ⟨hskip, rfl, fun heq => absurd heq h6, fun _ => rfl, fun heq => absurd heq h7, fun _ => rfl,
      fun heq => absurd heq h8, fun _ => rfl⟩

theorem consumes_account : Consumes (accountMergeField bufLen) := fun h => (accountMergeField_eq_ok h).1

/-- The nested account stops where it should. -/
theorem accountMerge_eq_ok (h : accountMerge bufLen msg buf = .ok (msg', rest)) :
    ∃ content, decodeVarint buf = .ok (content.length, content ++ rest) ∧
      Merges (accountMergeField bufLen) rest content msg msg' := nested_eq_ok consumes_account h

/-- A field of the account update: the account, which stands in the rest of the message, or another one. -/
theorem mergeField_eq_ok (h : mergeField bufLen msg tag wireType buf = .ok (msg', rest)) :
    (tag = 1 ∧ wireType = .lengthDelimited ∧ ∃ content, decodeVarint buf = .ok (content.length, content ++ rest) ∧
        Merges (accountMergeField bufLen) rest content { msg with account := some (bufLen - buf.length) } msg') ∨
      (tag ≠ 1 ∧ skipField wireType tag buf = .ok rest ∧ msg'.account = msg.account ∧ msg'.data = msg.data ∧
        msg'.writeVersion = msg.writeVersion ∧ msg'.txnSignatureOffset = msg.txnSignatureOffset) := by
  unfold mergeField at h
  split at h
  · obtain ⟨_, hwire, hread⟩ := bind_eq_ok.mp h
    obtain rfl := checkWireType_eq_ok.mp hwire
    exact .inl ⟨rfl, rfl, accountMerge_eq_ok (atField_eq_ok.mp hread)⟩
  · obtain ⟨_, hread, rfl⟩ := read_of_bind h fun _ _ => rfl
    exact .inr ⟨by decide, uint64.merge_skips (atField_eq_ok.mp hread), rfl, rfl, rfl, rfl⟩
  · obtain ⟨_, hread, rfl⟩ := read_of_bind h fun _ _ => rfl
    exact .inr ⟨by decide, bool.merge_skips (atField_eq_ok.mp hread), rfl, rfl, rfl, rfl⟩
  · obtain ⟨_, hread, rfl⟩ := read_of_bind h fun _ _ => rfl
    exact .inr ⟨by decide, uint64.merge_skips (atField_eq_ok.mp hread), rfl, rfl, rfl, rfl⟩
  · rename_i htag _ _ _
    obtain ⟨hskip, rfl⟩ := skip_of_bind h fun _ => rfl
    exact .inr ⟨htag, hskip, rfl, rfl, rfl, rfl⟩

theorem consumes : Consumes (mergeField bufLen) := by
  intro msg tag wireType buf msg' rest h
  rcases mergeField_eq_ok h with ⟨-, rfl, content, hcontent, -⟩ | ⟨-, hskip, -⟩
  · exact skipField_lengthDelimited hcontent
  · exact hskip

/-- The places of an account update that is read: those that are set stand in a nested account. -/
structure Placed (body : Bytes) (msg : UpdateOneofLimitedDecodeAccount) : Prop where
  account : ∀ offset ∈ msg.account, ∃ stop, VarintStands body offset stop
  data : msg.data.In body ∧ msg.data.InField body 0 1
  writeVersion : msg.writeVersion ≠ 0 → ∃ stop, msg.writeVersion < stop ∧ VarintStands body msg.writeVersion stop ∧
    Range.InField ⟨msg.writeVersion, stop⟩ body 0 1
  txnSignature : ∀ offset ∈ msg.txnSignatureOffset, Range.In ⟨offset, offset + signatureBytes⟩ body ∧
    Range.InField ⟨offset, offset + signatureBytes⟩ body 0 1

theorem placed_default (body : Bytes) : Placed body default where
  account := by simp [default]
  data := ⟨⟨le_rfl, Nat.zero_le _⟩, fun h => absurd h (lt_irrefl _)⟩
  writeVersion h := absurd rfl h
  txnSignature := by simp [default]

/-- The fields of a nested account. -/
theorem placed_account {body content after : Bytes} (hmessage : HasMessage body 1 content after)
    {sub : Bytes} (hsub : sub <:+ content) (h : Merges (accountMergeField body.length) after sub msg msg')
    (hplaced : Placed body msg) : Placed body msg' := by
  induction h with
  | nil => exact hplaced
  | @field buf field rest tag wireType msg msg₁ msg' hkey hskip hfield _ ih =>
    obtain ⟨-, hplaces⟩ := accountMergeField_eq_ok hfield
    obtain ⟨key, rfl, -, -⟩ := decodeKey_part hkey
    obtain ⟨part, rfl, -⟩ := skipField_part hskip
    have hfield' : (part ++ rest) ++ after <:+ content ++ after := by
      obtain ⟨pre, rfl⟩ := hsub
      exact ⟨pre ++ key, by simp only [List.append_assoc]⟩
    have hrest : rest <:+ content := ((List.suffix_append part rest).trans (List.suffix_append key _)).trans hsub
    have hlen : after.length ≤ (rest ++ after).length := by
      rw [List.length_append]
      omega
    -- a value of the field stands in the content
    have hvalue : ∀ value, decodeVarint (part ++ rest ++ after) = .ok (value.length, value ++ (rest ++ after)) →
        value ++ (rest ++ after) <:+ content ++ after := by
      intro value hval
      obtain ⟨len, hbuf, -, -, -⟩ := decodeVarint_part hval
      rw [hbuf] at hfield'
      exact (List.suffix_append len _).trans hfield'
    refine ih hrest ⟨?_, ?_, ?_, ?_⟩
    · rw [hplaces.account]
      exact hplaced.account
    · by_cases htag : tag = 6
      · obtain ⟨value, hval, hdata⟩ := hplaces.dataSet htag
        rw [hdata]
        exact inField_of_suffix hmessage (hvalue value hval) hlen
      · rw [hplaces.dataKept htag]
        exact hplaced.data
    · by_cases htag : tag = 7
      · obtain ⟨⟨n, hvar⟩, hversion⟩ := hplaces.writeVersionSet htag
        intro _
        obtain ⟨hstands, hlt⟩ := varintStands_of_suffix (hfield'.trans hmessage.suffix) hvar
        rw [hversion]
        refine ⟨_, hlt, hstands, ?_⟩
        obtain ⟨num, hbuf, -, -, -⟩ := decodeVarint_part hvar
        rw [hbuf] at hfield' ⊢
        exact (inField_of_suffix hmessage hfield' hlen).2
      · rw [hplaces.writeVersionKept htag]
        exact hplaced.writeVersion
    · by_cases htag : tag = 8
      · obtain ⟨value, hval, hsize, hoffset⟩ := hplaces.signatureSet htag
        intro offset hmem
        rw [hoffset] at hmem
        obtain rfl := Option.some.inj hmem
        have hin := inField_of_suffix hmessage (hvalue value hval) hlen
        have hle := ((hvalue value hval).trans hmessage.suffix).length_le
        have hplace : place body.length value (rest ++ after) =
            ⟨body.length - (value ++ (rest ++ after)).length,
              body.length - (value ++ (rest ++ after)).length + signatureBytes⟩ := by
          rw [← hsize]
          simp only [List.length_append] at hle
          simp only [place, List.length_append, Range.mk.injEq, true_and]
          omega
        rwa [hplace] at hin
      · rw [hplaces.signatureKept htag]
        exact hplaced.txnSignature

/-- The fields of the account update. -/
theorem placed_of_merges {body sub : Bytes} (hto : FieldsTo body sub)
    (h : Merges (mergeField body.length) [] sub msg msg') (hplaced : Placed body msg) : Placed body msg' := by
  induction h with
  | nil => exact hplaced
  | @field buf field rest tag wireType msg msg₁ msg' hkey hskip hfield _ ih =>
    refine ih (hto.snoc hkey hskip) ?_
    rw [List.append_nil, List.append_nil] at hfield
    rcases mergeField_eq_ok hfield with ⟨rfl, rfl, content, hcontent, hmerges⟩ | ⟨-, -, h₁, h₂, h₃, h₄⟩
    · refine placed_account ⟨buf, field, hto, hkey, hcontent⟩ List.suffix_rfl hmerges ?_
      have hsuffix : field <:+ body := by
        obtain ⟨key, rfl, -, -⟩ := decodeKey_part hkey
        exact (List.suffix_append key field).trans hto.suffix
      refine ⟨fun offset hmem => ?_, hplaced.data, hplaced.writeVersion, hplaced.txnSignature⟩
      obtain rfl := Option.some.inj hmem
      exact ⟨_, (varintStands_of_suffix hsuffix hcontent).1⟩
    · refine ⟨?_, ?_, ?_, ?_⟩
      · rw [h₁]
        exact hplaced.account
      · rw [h₂]
        exact hplaced.data
      · rw [h₃]
        exact hplaced.writeVersion
      · rw [h₄]
        exact hplaced.txnSignature

theorem account_writeVersion_iff {content after : Bytes} (hle : (content ++ after).length ≤ bufLen)
    (h : Merges (accountMergeField bufLen) after content msg msg') :
    msg'.writeVersion ≠ 0 ↔ msg.writeVersion ≠ 0 ∨ HasTag content 7 := by
  rw [h.accumulates (·.writeVersion ≠ 0) (fun tag _ _ => tag = 7)]
  · refine or_congr_right ?_
    constructor
    · rintro ⟨field, body, tag, wireType, hfield, hkey, rfl⟩
      exact ⟨field, body, wireType, hfield, hkey⟩
    · rintro ⟨field, body, wireType, hfield, hkey⟩
      exact ⟨field, body, 7, wireType, hfield, hkey, rfl⟩
  · intro msg tag wireType field body msg₁ rest hto hkey hfield
    obtain ⟨-, hplaces⟩ := accountMergeField_eq_ok hfield
    by_cases htag : tag = 7
    · refine iff_of_true ?_ (.inr htag)
      have hlt := length_lt_of_key hkey
      have hsub := hto.suffix.length_le
      rw [(hplaces.writeVersionSet htag).2]
      simp only [List.length_append] at hle ⊢
      omega
    · rw [hplaces.writeVersionKept htag, or_iff_left htag]

/-- The place of the write version is set by an account with a write version. -/
theorem writeVersion_iff {body : Bytes} (h : limitedDecode mergeField .default body = .ok msg') :
    msg'.writeVersion ≠ 0 ↔ ∃ account rest, HasMessage body 1 account rest ∧ HasTag account 7 := by
  have hmerges := consumes.mergeAll h
  rw [hmerges.accumulates (·.writeVersion ≠ 0) fun tag wireType buf => tag = 1 ∧ wireType = .lengthDelimited ∧
    ∃ account rest, decodeVarint buf = .ok (account.length, account ++ rest) ∧ HasTag account 7]
  · rw [or_iff_right (by simp [default])]
    constructor
    · rintro ⟨field, body', tag, wireType, hfield, hkey, rfl, rfl, account, rest, hcontent, htag⟩
      rw [List.append_nil] at hcontent
      exact ⟨account, rest, ⟨field, body', hfield, hkey, hcontent⟩, htag⟩
    · rintro ⟨account, rest, ⟨field, body', hfield, hkey, hcontent⟩, htag⟩
      refine ⟨field, body', 1, .lengthDelimited, hfield, hkey, rfl, rfl, account, rest, ?_, htag⟩
      rw [List.append_nil]
      exact hcontent
  · intro msg tag wireType field body' msg₁ rest hto hkey hfield
    rcases mergeField_eq_ok hfield with ⟨rfl, rfl, content, hcontent, hmerges⟩ | ⟨htag, -, -, -, hversion, -⟩
    · have hle : (content ++ (rest ++ [])).length ≤ body.length := by
        rw [List.append_nil] at hcontent ⊢
        exact (HasMessage.suffix ⟨field, body', hto, hkey, by simpa using hcontent⟩).length_le
      rw [account_writeVersion_iff hle hmerges]
      refine or_congr_right ⟨fun hversion => ⟨rfl, rfl, content, rest ++ [], hcontent, hversion⟩, ?_⟩
      rintro ⟨-, -, account, rest', hcontent', htag⟩
      obtain ⟨rfl, -⟩ := content_unique hcontent hcontent'
      exact htag
    · rw [hversion, or_iff_left fun h => htag h.1]

end UpdateOneofLimitedDecodeAccount

/-! ### Transactions, with the ends of the nested messages -/

namespace UpdateOneofLimitedDecodeTransactionInfo

variable {bufLen : ℕ} {msg msg' : UpdateOneofLimitedDecodeTransactionInfo} {tag : ℕ} {wireType : WireType}
  {buf rest : Bytes}

theorem insertKey_skips {field : String} (h : insertKey field msg wireType buf = .ok (msg', rest)) :
    skipField wireType tag buf = .ok rest := by
  obtain ⟨_, hread, -⟩ := read_of_bind h fun _ _ => rfl
  exact decodePubkey_skips hread

theorem consumes_message : Consumes messageMergeField := by
  intro msg tag wireType buf msg' rest h
  unfold messageMergeField at h
  split at h
  · exact insertKey_skips h
  · exact (skip_of_bind h fun _ => rfl).1

theorem consumes_meta : Consumes (metaMergeField bufLen) := by
  intro msg tag wireType buf msg' rest h
  unfold metaMergeField at h
  split at h
  · obtain ⟨_, hwire, hread⟩ := bind_eq_ok.mp h
    obtain rfl := checkWireType_eq_ok.mp hwire
    obtain ⟨_, hrange, -⟩ := read_of_bind hread fun _ _ => rfl
    exact delimitedRange_skips hrange
  · exact insertKey_skips h
  · exact insertKey_skips h
  · exact (skip_of_bind h fun _ => rfl).1

/-- A nested message is read exactly if it is read and made of whole fields. -/
theorem mergeExact_iff {mergeField : UpdateOneofLimitedDecodeTransactionInfo → ℕ → WireType → Bytes →
      Except DecodeError (UpdateOneofLimitedDecodeTransactionInfo × Bytes)} (hc : Consumes mergeField) :
    mergeExact mergeField msg buf = .ok (msg', rest) ↔
      mergeLengthDelimited mergeField (createDecodeError "buffer underflow") msg buf = .ok (msg', rest) ∧
        ∀ content after, decodeVarint buf = .ok (content.length, content ++ after) → WholeFields content := by
  constructor
  · intro h
    obtain ⟨content, hcontent, hmerges⟩ := nested_eq_ok hc h
    have hle : content.length ≤ (content ++ rest).length := by
      rw [List.length_append]
      omega
    refine ⟨bind_eq_ok.mpr ⟨_, hcontent, ?_⟩, fun content' after' hcontent' => ?_⟩
    · dsimp only
      rw [if_neg (Nat.not_lt_of_le hle), Reads.limit_eq]
      exact hmerges.mergeLoop_eq hle
    · rw [← (content_unique hcontent hcontent').1]
      exact hmerges.wholeFields
  · rintro ⟨h, hwhole⟩
    obtain ⟨⟨len, buf₁⟩, hlen, hbody⟩ := bind_eq_ok.mp h
    dsimp only at hbody
    split at hbody
    · cases hbody
    · rename_i hle
      obtain ⟨content, after, hcontent, rfl, rfl⟩ := exists_content hlen hle
      rw [Reads.limit_eq] at hbody
      obtain ⟨rfl, hmerges⟩ := hc.merges (hwhole content after hcontent) le_rfl hbody
      exact nested_of_merges hcontent hmerges

/-- `mergeLengthDelimited` is a loop up to the limit of the content. -/
theorem mergeLengthDelimited_eq {mergeField : UpdateOneofLimitedDecodeTransactionInfo → ℕ → WireType → Bytes →
      Except DecodeError (UpdateOneofLimitedDecodeTransactionInfo × Bytes)} {underflow : DecodeError}
    {content after : Bytes} (hcontent : decodeVarint buf = .ok (content.length, content ++ after)) :
    mergeLengthDelimited mergeField underflow msg buf =
      mergeLoop mergeField after.length (content ++ after).length msg (content ++ after) := by
  have hle : content.length ≤ (content ++ after).length := by
    rw [List.length_append]
    omega
  unfold mergeLengthDelimited
  rw [hcontent]
  simp only [bind, Except.bind, if_neg (Nat.not_lt_of_le hle), Reads.limit_eq]

theorem exists_of_mergeLengthDelimited {mergeField : UpdateOneofLimitedDecodeTransactionInfo → ℕ → WireType → Bytes →
      Except DecodeError (UpdateOneofLimitedDecodeTransactionInfo × Bytes)} {underflow : DecodeError}
    (h : mergeLengthDelimited mergeField underflow msg buf = .ok (msg', rest)) :
    ∃ content after, decodeVarint buf = .ok (content.length, content ++ after) := by
  obtain ⟨⟨len, buf₁⟩, hlen, hbody⟩ := bind_eq_ok.mp h
  dsimp only at hbody
  split at hbody
  · cases hbody
  · rename_i hle
    obtain ⟨content, after, hcontent, -, -⟩ := exists_content hlen hle
    exact ⟨content, after, hcontent⟩

/-- A message of the transaction that is made of whole fields. -/
def GoodMessage (tag : ℕ) (wireType : WireType) (buf : Bytes) : Prop :=
  tag = 2 → wireType = .lengthDelimited →
    ∀ content after, decodeVarint buf = .ok (content.length, content ++ after) → WholeFields content

theorem transactionMergeFieldExact_iff : transactionMergeFieldExact msg tag wireType buf = .ok (msg', rest) ↔
    transactionMergeField msg tag wireType buf = .ok (msg', rest) ∧ GoodMessage tag wireType buf := by
  unfold transactionMergeFieldExact
  split
  · rw [transactionMergeField, bind_eq_ok, bind_eq_ok]
    constructor
    · rintro ⟨_, hwire, h⟩
      obtain ⟨h, hwhole⟩ := (mergeExact_iff consumes_message).mp h
      exact ⟨⟨_, hwire, h⟩, fun _ _ => hwhole⟩
    · rintro ⟨⟨_, hwire, h⟩, hgood⟩
      exact ⟨_, hwire, (mergeExact_iff consumes_message).mpr ⟨h, hgood rfl (checkWireType_eq_ok.mp hwire).symm⟩⟩
  · rename_i htag
    rw [transactionMergeField.eq_2 _ _ _ _ htag]
    exact (and_iff_left fun heq => absurd heq htag).symm

theorem consumes_transaction : Consumes transactionMergeFieldExact := by
  intro msg tag wireType buf msg' rest h
  unfold transactionMergeFieldExact at h
  split at h
  · obtain ⟨_, hwire, hread⟩ := bind_eq_ok.mp h
    obtain rfl := checkWireType_eq_ok.mp hwire
    obtain ⟨content, hcontent, -⟩ := nested_eq_ok consumes_message hread
    exact skipField_lengthDelimited hcontent
  · exact (skip_of_bind h fun _ => rfl).1

/-- The nested messages of a field of the transaction info are made of whole fields. -/
def GoodInfo (tag : ℕ) (wireType : WireType) (buf : Bytes) : Prop :=
  wireType = .lengthDelimited → ∀ content after, decodeVarint buf = .ok (content.length, content ++ after) →
    (tag = 3 → WholeFields content ∧ ∀ message rest, HasMessage content 2 message rest → WholeFields message) ∧
      (tag = 4 → WholeFields content)

theorem mergeTransactionExact_iff : mergeExact transactionMergeFieldExact msg buf = .ok (msg', rest) ↔
    mergeTransaction msg buf = .ok (msg', rest) ∧
      ∀ content after, decodeVarint buf = .ok (content.length, content ++ after) →
        WholeFields content ∧ ∀ message rest, HasMessage content 2 message rest → WholeFields message := by
  rw [mergeExact_iff consumes_transaction]
  -- the fields of the content, for a decoder that has found it
  have hfields : ∀ content after, decodeVarint buf = .ok (content.length, content ++ after) → WholeFields content →
      (mergeLengthDelimited transactionMergeFieldExact (createDecodeError "buffer underflow") msg buf =
          .ok (msg', rest) ↔
        mergeTransaction msg buf = .ok (msg', rest) ∧
          ∀ message rest, HasMessage content 2 message rest → WholeFields message) := by
    intro content after hcontent hwhole
    rw [mergeTransaction, mergeLengthDelimited_eq hcontent, mergeLengthDelimited_eq hcontent,
      mergeLoop_restrict consumes_transaction transactionMergeFieldExact_iff le_rfl,
      ← forall_message_iff after hwhole]
    refine and_congr_right fun _ => ⟨fun h field body hfield hlen hkey => ?_, fun h field body tag wireType hfield
      hlen hkey => ?_⟩
    · exact h field body 2 .lengthDelimited hfield hlen hkey rfl rfl
    · rintro rfl rfl
      exact h field body hfield hlen hkey
  constructor
  · rintro ⟨h, hwhole⟩
    obtain ⟨content, after, hcontent⟩ := exists_of_mergeLengthDelimited h
    obtain ⟨hread, hall⟩ := (hfields content after hcontent (hwhole content after hcontent)).mp h
    refine ⟨hread, fun content' after' hcontent' => ?_⟩
    rw [← (content_unique hcontent hcontent').1]
    exact ⟨hwhole content after hcontent, hall⟩
  · rintro ⟨h, hall⟩
    obtain ⟨content, after, hcontent⟩ := exists_of_mergeLengthDelimited h
    obtain ⟨hwhole, hmessages⟩ := hall content after hcontent
    exact ⟨(hfields content after hcontent hwhole).mpr ⟨h, hmessages⟩, fun content' after' hcontent' =>
      (hall content' after' hcontent').1⟩

theorem mergeFieldExact_iff : mergeFieldExact bufLen msg tag wireType buf = .ok (msg', rest) ↔
    mergeField bufLen msg tag wireType buf = .ok (msg', rest) ∧ GoodInfo tag wireType buf := by
  unfold mergeFieldExact
  split
  · rw [mergeField, bind_eq_ok, bind_eq_ok]
    constructor
    · rintro ⟨_, hwire, h⟩
      obtain ⟨h, hwhole⟩ := mergeTransactionExact_iff.mp (atField_eq_ok.mp h)
      exact ⟨⟨_, hwire, atField_eq_ok.mpr h⟩, fun _ content after hcontent =>
        ⟨fun _ => hwhole content after hcontent, by simp⟩⟩
    · rintro ⟨⟨_, hwire, h⟩, hgood⟩
      refine ⟨_, hwire, atField_eq_ok.mpr (mergeTransactionExact_iff.mpr ⟨atField_eq_ok.mp h, ?_⟩)⟩
      exact fun content after hcontent => (hgood (checkWireType_eq_ok.mp hwire).symm content after hcontent).1 rfl
  · rw [mergeField, bind_eq_ok, bind_eq_ok]
    constructor
    · rintro ⟨_, hwire, h⟩
      obtain ⟨h, hwhole⟩ := (mergeExact_iff consumes_meta).mp (atField_eq_ok.mp h)
      exact ⟨⟨_, hwire, atField_eq_ok.mpr h⟩, fun _ content after hcontent =>
        ⟨by simp, fun _ => hwhole content after hcontent⟩⟩
    · rintro ⟨⟨_, hwire, h⟩, hgood⟩
      refine ⟨_, hwire, atField_eq_ok.mpr ((mergeExact_iff consumes_meta).mpr ⟨atField_eq_ok.mp h, ?_⟩)⟩
      exact fun content after hcontent => (hgood (checkWireType_eq_ok.mp hwire).symm content after hcontent).2 rfl
  · rename_i h3 h4
    exact (and_iff_left fun _ _ _ _ => ⟨fun heq => absurd heq h3, fun heq => absurd heq h4⟩).symm

theorem consumes : Consumes (mergeFieldExact bufLen) := by
  intro msg tag wireType buf msg' rest h
  unfold mergeFieldExact at h
  split at h
  · obtain ⟨_, hwire, hread⟩ := bind_eq_ok.mp h
    obtain rfl := checkWireType_eq_ok.mp hwire
    obtain ⟨content, hcontent, -⟩ := nested_eq_ok consumes_transaction (atField_eq_ok.mp hread)
    exact skipField_lengthDelimited hcontent
  · obtain ⟨_, hwire, hread⟩ := bind_eq_ok.mp h
    obtain rfl := checkWireType_eq_ok.mp hwire
    obtain ⟨content, hcontent, -⟩ := nested_eq_ok consumes_meta (atField_eq_ok.mp hread)
    exact skipField_lengthDelimited hcontent
  · rename_i h3 h4
    unfold mergeField at h
    split at h
    · obtain ⟨_, hread, -⟩ := read_of_bind h fun _ _ => rfl
      exact signatureOffset_skips hread
    · obtain ⟨_, hread, -⟩ := read_of_bind h fun _ _ => rfl
      exact bool.merge_skips (atField_eq_ok.mp hread)
    · exact absurd rfl h3
    · exact absurd rfl h4
    · obtain ⟨_, hread, -⟩ := read_of_bind h fun _ _ => rfl
      exact uint64.merge_skips (atField_eq_ok.mp hread)
    · exact (skip_of_bind h fun _ => rfl).1

/-- The exact decoder accepts the infos that are framed, with the same result. -/
theorem exact_iff {info : Bytes} {txInfo : UpdateOneofLimitedDecodeTransactionInfo} :
    limitedDecode mergeFieldExact .default info = .ok txInfo ↔
      limitedDecode mergeField .default info = .ok txInfo ∧ Framed info := by
  have hall : ∀ rest, mergeLoop (mergeFieldExact info.length) 0 info.length default info = .ok (txInfo, rest) ↔
      mergeLoop (mergeField info.length) 0 info.length default info = .ok (txInfo, rest) ∧ Framed info := by
    intro rest
    rw [mergeLoop_restrict consumes mergeFieldExact_iff le_rfl]
    refine and_congr_right fun _ => ⟨fun h => ⟨fun content after hmessage => ?_, fun content after hmessage => ?_⟩,
      fun hframed field body tag wireType hfield hlen hkey => ?_⟩
    · obtain ⟨field, body, hfield, hkey, hcontent⟩ := hmessage
      exact (h field body 3 _ hfield ((Nat.zero_le _).trans_lt (length_lt_of_key hkey)) hkey rfl content after
        hcontent).1 rfl
    · obtain ⟨field, body, hfield, hkey, hcontent⟩ := hmessage
      exact (h field body 4 _ hfield ((Nat.zero_le _).trans_lt (length_lt_of_key hkey)) hkey rfl content after
        hcontent).2 rfl
    · rintro rfl content after hcontent
      constructor
      · rintro rfl
        exact hframed.1 content after ⟨field, body, hfield, hkey, hcontent⟩
      · rintro rfl
        exact hframed.2 content after ⟨field, body, hfield, hkey, hcontent⟩
  constructor
  · intro h
    obtain ⟨⟨msg, rest⟩, hloop, hmsg⟩ := bind_eq_ok.mp h
    obtain rfl := Except.ok.inj hmsg
    obtain ⟨hloop, hframed⟩ := (hall rest).mp hloop
    exact ⟨bind_eq_ok.mpr ⟨_, hloop, rfl⟩, hframed⟩
  · rintro ⟨h, hframed⟩
    obtain ⟨⟨msg, rest⟩, hloop, hmsg⟩ := bind_eq_ok.mp h
    obtain rfl := Except.ok.inj hmsg
    exact bind_eq_ok.mpr ⟨_, (hall rest).mpr ⟨hloop, hframed⟩, rfl⟩

/-! Also without the ends: the places are in the buffer. -/

/-- What is left of the info, and the places that are set in it. -/
structure InInfo (info : Bytes) (msg : UpdateOneofLimitedDecodeTransactionInfo) (buf : Bytes) : Prop where
  suffix : buf <:+ info
  err : ∀ err ∈ msg.err, err.In info
  signature : ∀ offset ∈ msg.signatureOffset, Range.In ⟨offset, offset + signatureBytes⟩ info

theorem InInfo.mono {info : Bytes} (h : InInfo info msg buf) (hrest : rest <:+ buf) : InInfo info msg rest :=
  ⟨hrest.trans h.suffix, h.err, h.signature⟩

/-- What the fields of a nested message preserve, the message preserves. -/
theorem mergeLengthDelimited_preserves {mergeField : UpdateOneofLimitedDecodeTransactionInfo → ℕ → WireType →
      Bytes → Except DecodeError (UpdateOneofLimitedDecodeTransactionInfo × Bytes)} {info : Bytes}
    {underflow : DecodeError} (hstep : ∀ msg tag wireType buf msg₁ rest, InInfo info msg buf →
      mergeField msg tag wireType buf = .ok (msg₁, rest) → InInfo info msg₁ rest)
    (hin : InInfo info msg buf) (h : mergeLengthDelimited mergeField underflow msg buf = .ok (msg', rest)) :
    InInfo info msg' rest := by
  obtain ⟨⟨len, buf₁⟩, hlen, hbody⟩ := bind_eq_ok.mp h
  dsimp only at hbody
  split at hbody
  · cases hbody
  · obtain ⟨part, rfl, -, -, -⟩ := decodeVarint_part hlen
    refine mergeLoop_induction (P := fun msg buf => InInfo info msg buf) ?_ hbody (hin.mono (List.suffix_append _ _))
    intro msg buf tag wireType body msg₁ rest hin _ hkey hfield
    obtain ⟨key, rfl, -, -⟩ := decodeKey_part hkey
    exact hstep _ _ _ _ _ _ (hin.mono (List.suffix_append key body)) hfield

theorem insertKey_preserves {info : Bytes} {field : String} (hin : InInfo info msg buf)
    (h : insertKey field msg wireType buf = .ok (msg', rest)) : InInfo info msg' rest := by
  have hskip : skipField wireType 0 buf = .ok rest := insertKey_skips h
  obtain ⟨part, rfl, -⟩ := skipField_part hskip
  obtain ⟨_, hread, rfl⟩ := read_of_bind h fun _ _ => rfl
  exact ⟨(List.suffix_append part rest).trans hin.suffix, hin.err, hin.signature⟩

theorem skip_preserves {info : Bytes} (hin : InInfo info msg buf) (h : skipField wireType tag buf = .ok rest) :
    InInfo info msg rest := by
  obtain ⟨part, rfl, -⟩ := skipField_part h
  exact hin.mono (List.suffix_append part rest)

theorem mergeTransaction_preserves {info : Bytes} (hin : InInfo info msg buf)
    (h : mergeTransaction msg buf = .ok (msg', rest)) : InInfo info msg' rest := by
  refine mergeLengthDelimited_preserves (fun msg tag wireType buf msg₁ rest hin hfield => ?_) hin h
  unfold transactionMergeField at hfield
  split at hfield
  · obtain ⟨_, -, hread⟩ := bind_eq_ok.mp hfield
    refine mergeLengthDelimited_preserves (fun msg tag wireType buf msg₁ rest hin hfield => ?_) hin hread
    unfold messageMergeField at hfield
    split at hfield
    · exact insertKey_preserves hin hfield
    · obtain ⟨hskip, rfl⟩ := skip_of_bind hfield fun _ => rfl
      exact skip_preserves hin hskip
  · obtain ⟨hskip, rfl⟩ := skip_of_bind hfield fun _ => rfl
    exact skip_preserves hin hskip

/-- The error stands in the info. -/
theorem err_preserves {info content : Bytes} (hin : InInfo info msg buf)
    (hcontent : decodeVarint buf = .ok (content.length, content ++ rest)) :
    InInfo info { msg with err := some (place info.length content rest) } rest := by
  obtain ⟨part, rfl, -, -, -⟩ := decodeVarint_part hcontent
  have hsuffix := (List.suffix_append part (content ++ rest)).trans hin.suffix
  refine ⟨(List.suffix_append content rest).trans hsuffix, fun err hmem => ?_, hin.signature⟩
  obtain rfl := Option.some.inj hmem
  exact place_in hsuffix

theorem mergeMeta_preserves {info : Bytes} (hin : InInfo info msg buf)
    (h : mergeMeta info.length msg buf = .ok (msg', rest)) : InInfo info msg' rest := by
  refine mergeLengthDelimited_preserves (fun msg tag wireType buf msg₁ rest hin hfield => ?_) hin h
  unfold metaMergeField at hfield
  split at hfield
  · obtain ⟨_, -, hread⟩ := bind_eq_ok.mp hfield
    obtain ⟨range, hrange, rfl⟩ := read_of_bind hread fun _ _ => rfl
    obtain ⟨content, hcontent, rfl⟩ := delimitedRange_eq_ok hrange
    exact err_preserves hin hcontent
  · exact insertKey_preserves hin hfield
  · exact insertKey_preserves hin hfield
  · obtain ⟨hskip, rfl⟩ := skip_of_bind hfield fun _ => rfl
    exact skip_preserves hin hskip

theorem signature_preserves {info content : Bytes} (hin : InInfo info msg buf)
    (hcontent : decodeVarint buf = .ok (content.length, content ++ rest)) (hsize : content.length = signatureBytes) :
    InInfo info { msg with signatureOffset := some (info.length - (content ++ rest).length) } rest := by
  obtain ⟨part, rfl, -, -, -⟩ := decodeVarint_part hcontent
  have hsuffix := (List.suffix_append part (content ++ rest)).trans hin.suffix
  have hle := hsuffix.length_le
  refine ⟨(List.suffix_append content rest).trans hsuffix, hin.err, fun offset hmem => ?_⟩
  obtain rfl := Option.some.inj hmem
  rw [List.length_append] at hle ⊢
  constructor <;> dsimp only <;> omega

theorem mergeField_preserves {info : Bytes} (hin : InInfo info msg buf)
    (h : mergeField info.length msg tag wireType buf = .ok (msg', rest)) : InInfo info msg' rest := by
  unfold mergeField at h
  split at h
  · obtain ⟨offset, hread, rfl⟩ := read_of_bind h fun _ _ => rfl
    obtain ⟨-, content, hcontent, hsize, rfl⟩ := signatureOffset_eq_ok hread
    exact signature_preserves hin hcontent hsize
  · obtain ⟨_, hread, rfl⟩ := read_of_bind h fun _ _ => rfl
    have hskip : skipField wireType 2 buf = .ok rest := bool.merge_skips (atField_eq_ok.mp hread)
    obtain ⟨part, rfl, -⟩ := skipField_part hskip
    exact ⟨(List.suffix_append part rest).trans hin.suffix, hin.err, hin.signature⟩
  · obtain ⟨_, -, hread⟩ := bind_eq_ok.mp h
    exact mergeTransaction_preserves hin (atField_eq_ok.mp hread)
  · obtain ⟨_, -, hread⟩ := bind_eq_ok.mp h
    exact mergeMeta_preserves hin (atField_eq_ok.mp hread)
  · obtain ⟨_, hread, rfl⟩ := read_of_bind h fun _ _ => rfl
    have hskip : skipField wireType 5 buf = .ok rest := uint64.merge_skips (atField_eq_ok.mp hread)
    obtain ⟨part, rfl, -⟩ := skipField_part hskip
    exact ⟨(List.suffix_append part rest).trans hin.suffix, hin.err, hin.signature⟩
  · obtain ⟨hskip, rfl⟩ := skip_of_bind h fun _ => rfl
    exact skip_preserves hin hskip

theorem inInfo_of_decode {info : Bytes} (h : limitedDecode mergeField .default info = .ok msg') :
    InInfo info msg' [] := by
  obtain ⟨⟨msg, rest⟩, hloop, hmsg⟩ := bind_eq_ok.mp h
  obtain rfl := Except.ok.inj hmsg
  have hdefault : InInfo info default info := ⟨List.suffix_rfl, by simp [default], by simp [default]⟩
  have hin : InInfo info msg rest := by
    refine mergeLoop_induction (P := fun msg buf => InInfo info msg buf) ?_ hloop hdefault
    intro msg buf tag wireType body msg₁ rest hin _ hkey hfield
    obtain ⟨key, rfl, -, -⟩ := decodeKey_part hkey
    exact mergeField_preserves (hin.mono (List.suffix_append key body)) hfield
  exact hin.mono (List.nil_suffix)

/-! With the ends: what is set stands in its own field. -/

theorem keeps_of_insertKey {field : String} (h : insertKey field msg wireType buf = .ok (msg', rest)) :
    msg'.err = msg.err ∧ msg'.signatureOffset = msg.signatureOffset := by
  obtain ⟨_, -, rfl⟩ := read_of_bind h fun _ _ => rfl
  exact ⟨rfl, rfl⟩

theorem keeps_of_message {content after : Bytes} (h : Merges messageMergeField after content msg msg') :
    msg'.err = msg.err ∧ msg'.signatureOffset = msg.signatureOffset := by
  induction h with
  | nil => exact ⟨rfl, rfl⟩
  | field _ _ hfield _ ih =>
    rw [ih.1, ih.2]
    unfold messageMergeField at hfield
    split at hfield
    · exact keeps_of_insertKey hfield
    · obtain ⟨-, rfl⟩ := skip_of_bind hfield fun _ => rfl
      exact ⟨rfl, rfl⟩

theorem keeps_of_transaction {content after : Bytes} (h : Merges transactionMergeFieldExact after content msg msg') :
    msg'.err = msg.err ∧ msg'.signatureOffset = msg.signatureOffset := by
  induction h with
  | nil => exact ⟨rfl, rfl⟩
  | field _ _ hfield _ ih =>
    rw [ih.1, ih.2]
    unfold transactionMergeFieldExact at hfield
    split at hfield
    · obtain ⟨_, -, hread⟩ := bind_eq_ok.mp hfield
      obtain ⟨message, -, hmerges⟩ := nested_eq_ok consumes_message hread
      exact keeps_of_message hmerges
    · obtain ⟨-, rfl⟩ := skip_of_bind hfield fun _ => rfl
      exact ⟨rfl, rfl⟩

theorem signature_of_meta {content after : Bytes} (h : Merges (metaMergeField bufLen) after content msg msg') :
    msg'.signatureOffset = msg.signatureOffset := by
  induction h with
  | nil => rfl
  | field _ _ hfield _ ih =>
    rw [ih]
    unfold metaMergeField at hfield
    split at hfield
    · obtain ⟨_, -, hread⟩ := bind_eq_ok.mp hfield
      obtain ⟨_, -, rfl⟩ := read_of_bind hread fun _ _ => rfl
      rfl
    · exact (keeps_of_insertKey hfield).2
    · exact (keeps_of_insertKey hfield).2
    · obtain ⟨-, rfl⟩ := skip_of_bind hfield fun _ => rfl
      rfl

/-- The error is set from the status meta. -/
theorem err_of_meta {info content after sub : Bytes} (hmessage : HasMessage info 4 content after)
    (hsub : sub <:+ content) (h : Merges (metaMergeField info.length) after sub msg msg')
    (herr : ∀ err ∈ msg.err, err.InField info 0 4) :
    ∀ err ∈ msg'.err, err.InField info 0 4 := by
  induction h with
  | nil => exact herr
  | @field buf field rest tag wireType msg msg₁ msg' hkey hskip hfield _ ih =>
    obtain ⟨key, rfl, -, -⟩ := decodeKey_part hkey
    obtain ⟨part, rfl, -⟩ := skipField_part hskip
    have hrest : rest <:+ content := ((List.suffix_append part rest).trans (List.suffix_append key _)).trans hsub
    refine ih hrest ?_
    unfold metaMergeField at hfield
    split at hfield
    · obtain ⟨_, -, hread⟩ := bind_eq_ok.mp hfield
      obtain ⟨range, hrange, rfl⟩ := read_of_bind hread fun _ _ => rfl
      obtain ⟨value, hvalue, rfl⟩ := delimitedRange_eq_ok hrange
      intro err hmem
      obtain rfl := Option.some.inj hmem
      obtain ⟨len, hbuf, -, -, -⟩ := decodeVarint_part hvalue
      refine (inField_of_suffix hmessage ?_ ?_).2
      · obtain ⟨pre, rfl⟩ := hsub
        refine ⟨pre ++ key ++ len, ?_⟩
        have hbuf' : part ++ (rest ++ after) = len ++ (value ++ (rest ++ after)) := by
          rw [← List.append_assoc]
          exact hbuf
        simp only [List.append_assoc, ← hbuf']
      · rw [List.length_append]
        omega
    · rw [(keeps_of_insertKey hfield).1]
      exact herr
    · rw [(keeps_of_insertKey hfield).1]
      exact herr
    · obtain ⟨-, rfl⟩ := skip_of_bind hfield fun _ => rfl
      exact herr

/-- What a field of the info does to the places. -/
theorem mergeFieldExact_places (h : mergeFieldExact bufLen msg tag wireType buf = .ok (msg', rest)) :
    (tag = 4 → wireType = .lengthDelimited ∧ ∃ content, decodeVarint buf = .ok (content.length, content ++ rest) ∧
      Merges (metaMergeField bufLen) rest content msg msg') ∧
    (tag ≠ 4 → msg'.err = msg.err) ∧ (tag = 1 → msg'.signatureOffset ≠ none) ∧
    (tag ≠ 1 → tag ≠ 4 → msg'.signatureOffset = msg.signatureOffset) := by
  unfold mergeFieldExact at h
  split at h
  · obtain ⟨_, -, hread⟩ := bind_eq_ok.mp h
    obtain ⟨content, -, hmerges⟩ := nested_eq_ok consumes_transaction (atField_eq_ok.mp hread)
    obtain ⟨herr, hsignature⟩ := keeps_of_transaction hmerges
    exact ⟨by simp, fun _ => herr, by simp, fun _ _ => hsignature⟩
  · obtain ⟨_, hwire, hread⟩ := bind_eq_ok.mp h
    exact ⟨fun _ => ⟨(checkWireType_eq_ok.mp hwire).symm, nested_eq_ok consumes_meta (atField_eq_ok.mp hread)⟩,
      by simp, by simp, by simp⟩
  · rename_i h3 h4
    unfold mergeField at h
    split at h
    · obtain ⟨_, -, rfl⟩ := read_of_bind h fun _ _ => rfl
      exact ⟨by simp, fun _ => rfl, by simp, by simp⟩
    · obtain ⟨_, -, rfl⟩ := read_of_bind h fun _ _ => rfl
      exact ⟨by simp, fun _ => rfl, by simp, fun _ _ => rfl⟩
    · exact absurd rfl h3
    · exact absurd rfl h4
    · obtain ⟨_, -, rfl⟩ := read_of_bind h fun _ _ => rfl
      exact ⟨by simp, fun _ => rfl, by simp, fun _ _ => rfl⟩
    · rename_i h1 _ _ _ _
      obtain ⟨-, rfl⟩ := skip_of_bind h fun _ => rfl
      exact ⟨fun heq => absurd heq h4, fun _ => rfl, fun heq => absurd heq h1, fun _ _ => rfl⟩

/-- The error stands in the status meta. -/
theorem err_inField {info sub : Bytes} (hto : FieldsTo info sub)
    (h : Merges (mergeFieldExact info.length) [] sub msg msg') (herr : ∀ err ∈ msg.err, err.InField info 0 4) :
    ∀ err ∈ msg'.err, err.InField info 0 4 := by
  induction h with
  | nil => exact herr
  | @field buf field rest tag wireType msg msg₁ msg' hkey hskip hfield _ ih =>
    refine ih (hto.snoc hkey hskip) ?_
    rw [List.append_nil, List.append_nil] at hfield
    obtain ⟨hmeta, hkept, -, -⟩ := mergeFieldExact_places hfield
    by_cases htag : tag = 4
    · obtain ⟨rfl, content, hcontent, hmerges⟩ := hmeta htag
      subst htag
      exact err_of_meta ⟨buf, field, hto, hkey, hcontent⟩ List.suffix_rfl hmerges herr
    · rw [hkept htag]
      exact herr

/-- The place of the signature is set by a signature. -/
theorem signature_iff {info : Bytes} (h : limitedDecode mergeFieldExact .default info = .ok msg') :
    msg'.signatureOffset ≠ none ↔ HasTag info 1 := by
  have hmerges := consumes.mergeAll h
  rw [hmerges.accumulates (·.signatureOffset ≠ none) fun tag _ _ => tag = 1]
  · rw [or_iff_right (by simp [default])]
    constructor
    · rintro ⟨field, body, tag, wireType, hfield, hkey, rfl⟩
      exact ⟨field, body, wireType, hfield, hkey⟩
    · rintro ⟨field, body, wireType, hfield, hkey⟩
      exact ⟨field, body, 1, wireType, hfield, hkey, rfl⟩
  · intro msg tag wireType field body msg₁ rest hto hkey hfield
    rw [List.append_nil, List.append_nil] at hfield
    obtain ⟨hmeta, -, hset, hkept⟩ := mergeFieldExact_places hfield
    by_cases h1 : tag = 1
    · exact iff_of_true (hset h1) (.inr h1)
    · rw [or_iff_left h1]
      by_cases h4 : tag = 4
      · obtain ⟨rfl, content, hcontent, hmerges⟩ := hmeta h4
        subst h4
        rw [signature_of_meta hmerges]
      · rw [hkept h1 h4]

end UpdateOneofLimitedDecodeTransactionInfo

end Richat.Filter
