import Richat.Lib.ProtobufTree
import Richat.Lib.Fallible

/-!
# The fields of a message

A message is a list of fields, which can be told apart without knowing them (`skipField`). `FieldsTo` says that the
bytes up to some place are whole fields, `HasMessage` that one of the fields is a nested message.
-/

namespace Richat.Lib.Protobuf

/-! ### A reader takes a part from the front -/

/-- The reader takes this part, whatever comes after it. -/
def Takes {α : Type} (read : Bytes → Except DecodeError (α × Bytes)) (part : Bytes) (value : α) : Prop :=
  ∀ rest, read (part ++ rest) = .ok (value, rest)

theorem decodeVarintAux_part : ∀ {fuel n : ℕ} {buf rest : Bytes}, decodeVarintAux fuel buf = some (n, rest) →
    ∃ part, buf = part ++ rest ∧ part ≠ [] ∧ part.length ≤ fuel := by
  intro fuel
  induction fuel with
  | zero => intro n buf rest h; simp [decodeVarintAux] at h
  | succ fuel ih =>
    intro n buf rest h
    cases buf with
    | nil => simp [decodeVarintAux] at h
    | cons byte buf =>
      unfold decodeVarintAux at h
      split at h
      · split at h
        · cases h
        · obtain ⟨rfl, rfl⟩ := Prod.mk.inj (Option.some.inj h)
          exact ⟨[byte], rfl, by simp, by simp⟩
      · cases hrest : decodeVarintAux fuel buf with
        | none => simp [hrest] at h
        | some r =>
          obtain ⟨high, rest₁⟩ := r
          simp only [hrest, Option.some.injEq, Prod.mk.injEq] at h
          obtain ⟨-, rfl⟩ := h
          obtain ⟨part, rfl, -, hlen⟩ := ih hrest
          exact ⟨byte :: part, rfl, by simp, by simpa using hlen⟩

/-- What a varint is does not depend on what comes after it. -/
theorem decodeVarintAux_takes : ∀ {fuel n : ℕ} {part rest : Bytes},
    decodeVarintAux fuel (part ++ rest) = some (n, rest) → decodeVarintAux fuel part = some (n, []) := by
  intro fuel
  induction fuel with
  | zero => intro n part rest h; simp [decodeVarintAux] at h
  | succ fuel ih =>
    intro n part rest h
    cases part with
    | nil =>
      -- the reader takes a byte
      obtain ⟨part, hbuf, hne, -⟩ := decodeVarintAux_part h
      exact absurd (List.self_eq_append_left.mp hbuf) hne
    | cons byte part =>
      rw [List.cons_append] at h
      unfold decodeVarintAux at h ⊢
      split at h
      · rename_i hlast
        rw [if_pos hlast]
        split at h
        · cases h
        · rename_i hbit
          rw [if_neg hbit]
          obtain ⟨rfl, hrest⟩ := Prod.mk.inj (Option.some.inj h)
          rw [List.append_left_eq_self.mp hrest]
      · rename_i hmore
        rw [if_neg hmore]
        cases hrest : decodeVarintAux fuel (part ++ rest) with
        | none => simp [hrest] at h
        | some r =>
          obtain ⟨high, rest₁⟩ := r
          simp only [hrest, Option.some.injEq, Prod.mk.injEq] at h
          obtain ⟨rfl, rfl⟩ := h
          rw [ih hrest]

/-- A varint takes one to ten bytes. -/
theorem decodeVarint_part {n : ℕ} {buf rest : Bytes} (h : decodeVarint buf = .ok (n, rest)) :
    ∃ part, buf = part ++ rest ∧ part ≠ [] ∧ part.length ≤ 10 ∧ Takes decodeVarint part n := by
  unfold decodeVarint at h
  cases haux : decodeVarintAux 10 buf with
  | none => simp [haux] at h
  | some r =>
    obtain rfl : r = (n, rest) := by simpa [haux] using h
    obtain ⟨part, rfl, hne, hlen⟩ := decodeVarintAux_part haux
    refine ⟨part, rfl, hne, hlen, fun rest' => ?_⟩
    have happend := decodeVarintAux_append rest' (decodeVarintAux_takes haux)
    rw [List.nil_append] at happend
    rw [decodeVarint, happend]

/-- The key of a varint, without what comes after it. -/
def keyOf (key : ℕ) : Except DecodeError (ℕ × WireType) :=
  if 2 ^ 32 ≤ key then .error (.new (.invalidKey key))
  else match WireType.tryFrom (key % 8) with
    | none => .error (.new (.invalidWireType (key % 8)))
    | some wireType => if key / 8 = 0 then .error (.new .invalidTag) else .ok (key / 8, wireType)

theorem decodeKey_eq (buf : Bytes) :
    decodeKey buf = decodeVarint buf >>= fun x => keyOf x.1 >>= fun key => .ok (key, x.2) := by
  unfold decodeKey keyOf
  cases decodeVarint buf with
  | error e => rfl
  | ok x =>
    simp only [bind, Except.bind, throw, throwThe, MonadExceptOf.throw, pure, Except.pure]
    split_ifs
    · rfl
    · cases WireType.tryFrom (x.1 % 8) with
      | none => rfl
      | some wireType => rfl
    · cases WireType.tryFrom (x.1 % 8) with
      | none => rfl
      | some wireType => rfl

theorem decodeKey_part {key : ℕ × WireType} {buf rest : Bytes} (h : decodeKey buf = .ok (key, rest)) :
    ∃ part, buf = part ++ rest ∧ part ≠ [] ∧ Takes decodeKey part key := by
  rw [decodeKey_eq] at h
  obtain ⟨x, hvar, h⟩ := bind_eq_ok.mp h
  obtain ⟨key', hkey, h⟩ := bind_eq_ok.mp h
  obtain ⟨rfl, rfl⟩ := Prod.mk.inj (Except.ok.inj h)
  obtain ⟨part, hbuf, hne, -, htakes⟩ := decodeVarint_part hvar
  refine ⟨part, hbuf, hne, fun rest' => ?_⟩
  rw [decodeKey_eq, htakes]
  exact bind_eq_ok.mpr ⟨_, rfl, bind_eq_ok.mpr ⟨key', hkey, rfl⟩⟩

theorem length_lt_of_key {buf : Bytes} {key : ℕ × WireType} {buf₁ : Bytes} (h : decodeKey buf = .ok (key, buf₁)) :
    buf₁.length < buf.length := by
  obtain ⟨part, rfl, hne, -⟩ := decodeKey_part h
  have := List.length_pos_iff.mpr hne
  rw [List.length_append]
  omega

/-! ### A field that is not known -/

/-- The bytes are skipped, whatever comes after them. -/
def IsSkipped (skip : Bytes → Except DecodeError Bytes) (part : Bytes) : Prop :=
  ∀ rest, skip (part ++ rest) = .ok rest

theorem advance_part {len : ℕ} {buf rest : Bytes} (h : advance len buf = .ok rest) :
    ∃ part, buf = part ++ rest ∧ part.length = len ∧ IsSkipped (advance len) part := by
  unfold advance at h
  split at h
  · cases h
  · rename_i hlen
    obtain rfl := Except.ok.inj h
    have htake : (buf.take len).length = len := List.length_take_of_le (Nat.le_of_not_lt hlen)
    refine ⟨buf.take len, (List.take_append_drop len buf).symm, htake, fun rest' => ?_⟩
    rw [advance, if_neg (by rw [List.length_append]; omega), List.drop_left' htake]

/-- Every turn of a group takes a byte, so that the length of the group is enough fuel. -/
theorem skipGroup_part (skip : WireType → ℕ → Bytes → Except DecodeError Bytes)
    (hskip : ∀ wireType tag buf rest, skip wireType tag buf = .ok rest →
      ∃ part, buf = part ++ rest ∧ IsSkipped (skip wireType tag) part) {tag : ℕ} :
    ∀ {fuel : ℕ} {buf rest : Bytes}, skipGroup skip tag fuel buf = .ok rest →
      ∃ part, buf = part ++ rest ∧ ∀ fuel', part.length ≤ fuel' → IsSkipped (skipGroup skip tag fuel') part := by
  intro fuel
  induction fuel with
  | zero => intro buf rest h; cases h
  | succ fuel ih =>
    intro buf rest h
    rw [skipGroup] at h
    obtain ⟨⟨⟨innerTag, wireType⟩, buf₁⟩, hkey, hmore⟩ := bind_eq_ok.mp h
    obtain ⟨part, rfl, hne, htakes⟩ := decodeKey_part hkey
    have hpos := List.length_pos_iff.mpr hne
    dsimp only at hmore
    split at hmore
    · rename_i hend
      split at hmore
      · rename_i htag
        obtain rfl := Except.ok.inj hmore
        refine ⟨part, rfl, fun fuel' hfuel' rest' => ?_⟩
        obtain ⟨fuel', rfl⟩ : ∃ f, fuel' = f + 1 := ⟨fuel' - 1, by omega⟩
        rw [skipGroup]
        refine bind_eq_ok.mpr ⟨_, htakes rest', ?_⟩
        dsimp only
        rw [if_pos hend, if_pos htag]
        rfl
      · cases hmore
    · rename_i hend
      obtain ⟨buf₂, hread, hrest⟩ := bind_eq_ok.mp hmore
      obtain ⟨field, rfl, hfield⟩ := hskip _ _ _ _ hread
      obtain ⟨group, rfl, hgroup⟩ := ih hrest
      refine ⟨part ++ (field ++ group), by simp only [List.append_assoc], fun fuel' hfuel' rest' => ?_⟩
      simp only [List.length_append] at hfuel'
      obtain ⟨fuel', rfl⟩ : ∃ f, fuel' = f + 1 := ⟨fuel' - 1, by omega⟩
      rw [List.append_assoc, List.append_assoc, skipGroup]
      refine bind_eq_ok.mpr ⟨_, htakes _, ?_⟩
      dsimp only
      rw [if_neg hend]
      exact bind_eq_ok.mpr ⟨_, hfield _, hgroup fuel' (by omega) rest'⟩

theorem skipFieldAux_part : ∀ {depth : ℕ} {wireType : WireType} {tag : ℕ} {buf rest : Bytes},
    skipFieldAux depth wireType tag buf = .ok rest →
      ∃ part, buf = part ++ rest ∧ IsSkipped (skipFieldAux depth wireType tag) part := by
  intro depth
  induction depth with
  | zero => intro wireType tag buf rest h; cases h
  | succ depth ih =>
    intro wireType tag buf rest h
    cases wireType with
    | varint =>
      obtain ⟨⟨n, rest₁⟩, hvar, hrest⟩ := bind_eq_ok.mp h
      obtain rfl := Except.ok.inj hrest
      obtain ⟨part, rfl, -, -, htakes⟩ := decodeVarint_part hvar
      exact ⟨part, rfl, fun rest' => bind_eq_ok.mpr ⟨_, htakes rest', rfl⟩⟩
    | sixtyFourBit | thirtyTwoBit =>
      obtain ⟨part, hbuf, -, hskip⟩ := advance_part h
      exact ⟨part, hbuf, hskip⟩
    | lengthDelimited =>
      obtain ⟨⟨len, buf₁⟩, hlen, hvalue⟩ := bind_eq_ok.mp h
      obtain ⟨part, rfl, -, -, htakes⟩ := decodeVarint_part hlen
      obtain ⟨value, rfl, -, hskip⟩ := advance_part hvalue
      refine ⟨part ++ value, (List.append_assoc ..).symm, fun rest' => ?_⟩
      rw [List.append_assoc]
      exact bind_eq_ok.mpr ⟨_, htakes _, hskip rest'⟩
    | startGroup =>
      have hread : skipGroup (skipFieldAux depth) tag (buf.length + 1) buf = .ok rest := h
      obtain ⟨part, hbuf, hgroup⟩ := skipGroup_part (skipFieldAux depth) (fun _ _ _ _ h => ih h) hread
      refine ⟨part, hbuf, fun rest' => ?_⟩
      refine hgroup ((part ++ rest').length + 1) ?_ rest'
      rw [List.length_append]
      omega
    | endGroup => cases h

theorem skipField_part {wireType : WireType} {tag : ℕ} {buf rest : Bytes} (h : skipField wireType tag buf = .ok rest) :
    ∃ part, buf = part ++ rest ∧ IsSkipped (skipField wireType tag) part := skipFieldAux_part h

/-! ### Whole fields -/

/-- The bytes of a buffer, up to the rest, are whole fields. -/
inductive FieldsTo : Bytes → Bytes → Prop where
  | nil {buf : Bytes} : FieldsTo buf buf
  | field {buf buf₁ buf₂ rest : Bytes} {tag : ℕ} {wireType : WireType}
      (hkey : decodeKey buf = .ok ((tag, wireType), buf₁)) (hskip : skipField wireType tag buf₁ = .ok buf₂)
      (h : FieldsTo buf₂ rest) : FieldsTo buf rest

namespace FieldsTo

variable {buf mid rest : Bytes}

theorem trans (h : FieldsTo buf mid) (h' : FieldsTo mid rest) : FieldsTo buf rest := by
  induction h with
  | nil => exact h'
  | field hkey hskip _ ih => exact .field hkey hskip (ih h')

/-- One more field. -/
theorem snoc {mid₁ : Bytes} {tag : ℕ} {wireType : WireType} (h : FieldsTo buf mid)
    (hkey : decodeKey mid = .ok ((tag, wireType), mid₁)) (hskip : skipField wireType tag mid₁ = .ok rest) :
    FieldsTo buf rest := h.trans (.field hkey hskip .nil)

/-- What comes after the fields does not matter. -/
theorem part (h : FieldsTo buf rest) : ∃ part, buf = part ++ rest ∧ ∀ rest', FieldsTo (part ++ rest') rest' := by
  induction h with
  | nil => exact ⟨[], rfl, fun _ => .nil⟩
  | field hkey hskip _ ih =>
    obtain ⟨key, rfl, -, htakes⟩ := decodeKey_part hkey
    obtain ⟨field, rfl, hskipped⟩ := skipField_part hskip
    obtain ⟨part, rfl, hpart⟩ := ih
    refine ⟨key ++ (field ++ part), by simp only [List.append_assoc], fun rest' => ?_⟩
    rw [List.append_assoc, List.append_assoc]
    exact .field (htakes _) (hskipped _) (hpart rest')

theorem suffix (h : FieldsTo buf rest) : rest <:+ buf := by
  obtain ⟨part, rfl, -⟩ := h.part
  exact List.suffix_append part rest

end FieldsTo

/-- Nothing but whole fields. -/
def WholeFields (content : Bytes) : Prop := FieldsTo content []

theorem WholeFields.of_append {content after : Bytes} (h : FieldsTo (content ++ after) after) :
    WholeFields content := by
  obtain ⟨part, hbuf, hpart⟩ := h.part
  obtain rfl := List.append_cancel_right hbuf
  have := hpart []
  rwa [List.append_nil] at this

/-- A field of the tag stands in the message. -/
def HasTag (buf : Bytes) (tag : ℕ) : Prop :=
  ∃ field body wireType, FieldsTo buf field ∧ decodeKey field = .ok ((tag, wireType), body)

/-- A field of the tag has this content, and these bytes come after it. -/
def HasMessage (buf : Bytes) (tag : ℕ) (content after : Bytes) : Prop :=
  ∃ field body, FieldsTo buf field ∧ decodeKey field = .ok ((tag, .lengthDelimited), body) ∧
    decodeVarint body = .ok (content.length, content ++ after)

theorem skipField_lengthDelimited {tag : ℕ} {body content after : Bytes}
    (h : decodeVarint body = .ok (content.length, content ++ after)) :
    skipField .lengthDelimited tag body = .ok after :=
  bind_eq_ok.mpr ⟨_, h, Skips.advance_append content after⟩

/-! ### The fields of a message one by one -/

section

variable {buf body rest content after : Bytes} {tag tag' : ℕ} {wireType : WireType}

theorem not_decodeKey_nil {key : ℕ × WireType} : decodeKey [] ≠ .ok (key, rest) := by
  intro h
  have := length_lt_of_key h
  rw [List.length_nil] at this
  omega

/-- The first field, and the others. -/
theorem fieldsTo_cons {field : Bytes} (hkey : decodeKey buf = .ok ((tag, wireType), body))
    (hskip : skipField wireType tag body = .ok rest) : FieldsTo buf field ↔ field = buf ∨ FieldsTo rest field := by
  constructor
  · intro h
    cases h with
    | nil => exact .inl rfl
    | field hkey' hskip' h =>
      obtain ⟨hpair, rfl⟩ := Prod.mk.inj (Except.ok.inj (hkey.symm.trans hkey'))
      obtain ⟨rfl, rfl⟩ := Prod.mk.inj hpair
      obtain rfl := Except.ok.inj (hskip.symm.trans hskip')
      exact .inr h
  · rintro (rfl | h)
    · exact .nil
    · exact .field hkey hskip h

theorem fieldsTo_nil {field : Bytes} : FieldsTo [] field ↔ field = [] := by
  constructor
  · intro h
    cases h with
    | nil => rfl
    | field hkey _ _ => exact absurd hkey not_decodeKey_nil
  · rintro rfl
    exact .nil

theorem not_hasTag_nil : ¬ HasTag [] tag := by
  rintro ⟨field, body, wireType, hfield, hkey⟩
  obtain rfl := fieldsTo_nil.mp hfield
  exact not_decodeKey_nil hkey

theorem hasTag_cons (hkey : decodeKey buf = .ok ((tag, wireType), body))
    (hskip : skipField wireType tag body = .ok rest) : HasTag buf tag' ↔ tag' = tag ∨ HasTag rest tag' := by
  constructor
  · rintro ⟨field, body', wireType', hfield, hkey'⟩
    rcases (fieldsTo_cons hkey hskip).mp hfield with rfl | hfield
    · obtain ⟨hpair, -⟩ := Prod.mk.inj (Except.ok.inj (hkey.symm.trans hkey'))
      exact .inl (Prod.mk.inj hpair).1.symm
    · exact .inr ⟨field, body', wireType', hfield, hkey'⟩
  · rintro (rfl | ⟨field, body', wireType', hfield, hkey'⟩)
    · exact ⟨buf, body, wireType, .nil, hkey⟩
    · exact ⟨field, body', wireType', .field hkey hskip hfield, hkey'⟩

theorem not_hasMessage_nil : ¬ HasMessage [] tag content after := by
  rintro ⟨field, body, hfield, hkey, -⟩
  obtain rfl := fieldsTo_nil.mp hfield
  exact not_decodeKey_nil hkey

theorem hasMessage_cons (hkey : decodeKey buf = .ok ((tag, wireType), body))
    (hskip : skipField wireType tag body = .ok rest) : HasMessage buf tag' content after ↔
      (tag' = tag ∧ wireType = .lengthDelimited ∧ decodeVarint body = .ok (content.length, content ++ after)) ∨
        HasMessage rest tag' content after := by
  constructor
  · rintro ⟨field, body', hfield, hkey', hlen⟩
    rcases (fieldsTo_cons hkey hskip).mp hfield with rfl | hfield
    · obtain ⟨hpair, rfl⟩ := Prod.mk.inj (Except.ok.inj (hkey.symm.trans hkey'))
      obtain ⟨rfl, rfl⟩ := Prod.mk.inj hpair
      exact .inl ⟨rfl, rfl, hlen⟩
    · exact .inr ⟨field, body', hfield, hkey', hlen⟩
  · rintro (⟨rfl, rfl, hlen⟩ | ⟨field, body', hfield, hkey', hlen⟩)
    · exact ⟨buf, body, .nil, hkey, hlen⟩
    · exact ⟨field, body', .field hkey hskip hfield, hkey', hlen⟩

/-- The bytes after the content are the ones that the field leaves. -/
theorem content_unique {content' after' : Bytes} (h : decodeVarint body = .ok (content.length, content ++ after))
    (h' : decodeVarint body = .ok (content'.length, content' ++ after')) : content = content' ∧ after = after' := by
  obtain ⟨hlen, happend⟩ := Prod.mk.inj (Except.ok.inj (h.symm.trans h'))
  exact List.append_inj happend hlen

theorem decodeVarint_content_append (h : decodeVarint body = .ok (content.length, content ++ rest)) (after : Bytes) :
    decodeVarint (body ++ after) = .ok (content.length, content ++ (rest ++ after)) := by
  rw [← List.append_assoc]
  exact decodeVarint_append h after

/-- A field with a length has that many bytes. -/
theorem content_of_skip (h : skipField .lengthDelimited tag body = .ok rest) :
    ∃ content, decodeVarint body = .ok (content.length, content ++ rest) := by
  obtain ⟨⟨len, body₁⟩, hlen, hrest⟩ := bind_eq_ok.mp h
  obtain ⟨content, rfl, rfl, -⟩ := advance_part hrest
  exact ⟨content, hlen⟩

/-- What comes after whole fields does not matter for them. -/
theorem FieldsTo.append {field : Bytes} (h : FieldsTo buf field) (after : Bytes) :
    FieldsTo (buf ++ after) (field ++ after) := by
  obtain ⟨part, rfl, hpart⟩ := h.part
  rw [List.append_assoc]
  exact hpart (field ++ after)

theorem fieldsTo_append {field : Bytes} (hwhole : WholeFields buf) (h : FieldsTo (buf ++ after) field)
    (hlen : after.length < field.length) : ∃ field', field = field' ++ after ∧ FieldsTo buf field' := by
  obtain ⟨len, hle⟩ : ∃ len, buf.length ≤ len := ⟨_, le_rfl⟩
  induction len generalizing buf with
  | zero =>
    obtain rfl := List.eq_nil_of_length_eq_zero (Nat.le_zero.mp hle)
    have := h.suffix.length_le
    rw [List.nil_append] at this
    omega
  | succ len ih =>
    cases hwhole with
    | nil =>
      have := h.suffix.length_le
      rw [List.nil_append] at this
      omega
    | @field _ body buf₂ _ tag wireType hkey hskip hwhole =>
      have hlt := length_lt_of_key hkey
      obtain ⟨part, rfl, hskipped⟩ := skipField_part hskip
      have hskip' := hskipped (buf₂ ++ after)
      rw [← List.append_assoc] at hskip'
      rw [List.length_append] at hlt
      rcases (fieldsTo_cons (decodeKey_append hkey after) hskip').mp h with rfl | h
      · exact ⟨buf, rfl, .nil⟩
      · obtain ⟨field', rfl, hfield'⟩ := ih hwhole h (by omega)
        exact ⟨field', rfl, .field hkey hskip hfield'⟩

/-- What is left after some of the fields are whole fields. -/
theorem WholeFields.of_fieldsTo {field : Bytes} (hwhole : WholeFields buf) (h : FieldsTo buf field) : WholeFields field := by
  induction h with
  | nil => exact hwhole
  | field hkey hskip _ ih =>
    rcases (fieldsTo_cons hkey hskip).mp hwhole with hnil | hwhole
    · rw [← hnil] at hkey
      exact absurd hkey not_decodeKey_nil
    · exact ih hwhole

/-- The nested messages of whole fields, with other bytes after them. -/
theorem forall_message_iff {P : Bytes → Prop} (after : Bytes) (hwhole : WholeFields buf) :
    (∀ field body, FieldsTo (buf ++ after) field → after.length < field.length →
        decodeKey field = .ok ((tag, .lengthDelimited), body) →
        ∀ content rest, decodeVarint body = .ok (content.length, content ++ rest) → P content) ↔
      ∀ content rest, HasMessage buf tag content rest → P content := by
  constructor
  · rintro h content rest ⟨field, body, hfield, hkey, hcontent⟩
    have hpos : 0 < field.length := (Nat.zero_le _).trans_lt (length_lt_of_key hkey)
    refine h (field ++ after) (body ++ after) (hfield.append after) ?_ (decodeKey_append hkey after) content _
      (decodeVarint_content_append hcontent after)
    rw [List.length_append]
    omega
  · intro h field body hfield hlen hkey content rest hcontent
    obtain ⟨field, rfl, hto⟩ := fieldsTo_append hwhole hfield hlen
    have hrest := hwhole.of_fieldsTo hto
    cases hrest with
    | nil =>
      rw [List.nil_append] at hlen
      exact absurd hlen (lt_irrefl _)
    | field hkey' hskip _ =>
      obtain ⟨hpair, rfl⟩ := Prod.mk.inj (Except.ok.inj ((decodeKey_append hkey' after).symm.trans hkey))
      obtain ⟨rfl, rfl⟩ := Prod.mk.inj hpair
      obtain ⟨content', hcontent'⟩ := content_of_skip hskip
      obtain ⟨rfl, -⟩ := content_unique (decodeVarint_content_append hcontent' after) hcontent
      exact h content' _ ⟨field, _, hto, hkey', hcontent'⟩

theorem HasMessage.suffix (h : HasMessage buf tag content after) : content ++ after <:+ buf := by
  obtain ⟨field, body, hfield, hkey, hlen⟩ := h
  obtain ⟨key, rfl, -, -⟩ := decodeKey_part hkey
  obtain ⟨len, rfl, -, -, -⟩ := decodeVarint_part hlen
  obtain ⟨part, rfl, -⟩ := hfield.part
  exact ⟨part ++ (key ++ len), by simp only [List.append_assoc]⟩

end

/-- The last field whose tag is one of these. -/
def LastMessage (tags : ℕ → Prop) (buf : Bytes) (tag : ℕ) (content after : Bytes) : Prop :=
  tags tag ∧ HasMessage buf tag content after ∧ ∀ tag', tags tag' → ¬ HasTag after tag'

end Richat.Lib.Protobuf
