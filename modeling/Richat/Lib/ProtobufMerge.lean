import Richat.Lib.ProtobufFields

/-!
# Decoders that go from field to field

A decoder that takes as much of a field as there is of it (`Consumes`) reads the fields of a message one after the
other: `Merges` is the run of its loop over whole fields, and its rules are by induction on them.
-/

namespace Richat.Lib.Protobuf

/-! ### Decoders that take whole fields -/

/-- The decoder of a field takes as much as there is of it. -/
def Consumes {α : Type} (mergeField : α → ℕ → WireType → Bytes → Except DecodeError (α × Bytes)) : Prop :=
  ∀ {msg : α} {tag : ℕ} {wireType : WireType} {buf : Bytes} {msg' : α} {rest : Bytes},
    mergeField msg tag wireType buf = .ok (msg', rest) → skipField wireType tag buf = .ok rest

section

variable {α : Type} {mergeField : α → ℕ → WireType → Bytes → Except DecodeError (α × Bytes)} {limit fuel : ℕ}
  {msg msg' : α} {buf rest mid : Bytes}

/-- One turn of the loop. -/
theorem mergeLoop_succ (hlimit : limit < buf.length) :
    mergeLoop mergeField limit (fuel + 1) msg buf = .ok (msg', rest) ↔
      ∃ tag wireType buf₁ msg₁ buf₂, decodeKey buf = .ok ((tag, wireType), buf₁) ∧
        mergeField msg tag wireType buf₁ = .ok (msg₁, buf₂) ∧
        mergeLoop mergeField limit fuel msg₁ buf₂ = .ok (msg', rest) := by
  rw [mergeLoop, if_pos hlimit, bind_eq_ok]
  constructor
  · rintro ⟨⟨⟨tag, wireType⟩, buf₁⟩, hkey, h⟩
    obtain ⟨⟨msg₁, buf₂⟩, hfield, hrest⟩ := bind_eq_ok.mp h
    exact ⟨tag, wireType, buf₁, msg₁, buf₂, hkey, hfield, hrest⟩
  · rintro ⟨tag, wireType, buf₁, msg₁, buf₂, hkey, hfield, hrest⟩
    exact ⟨_, hkey, bind_eq_ok.mpr ⟨_, hfield, hrest⟩⟩

theorem mergeLoop_stop (hlimit : buf.length ≤ limit) : mergeLoop mergeField limit fuel msg buf = .ok (msg, buf) := by
  cases fuel with
  | zero => rfl
  | succ fuel => rw [mergeLoop, if_neg (Nat.not_lt_of_le hlimit)]

/-- What every field preserves holds after all of them. -/
theorem mergeLoop_induction {P : α → Bytes → Prop}
    (step : ∀ {msg : α} {buf : Bytes} {tag : ℕ} {wireType : WireType} {buf₁ : Bytes} {msg₁ : α} {buf₂ : Bytes},
      P msg buf → limit < buf.length → decodeKey buf = .ok ((tag, wireType), buf₁) →
      mergeField msg tag wireType buf₁ = .ok (msg₁, buf₂) → P msg₁ buf₂) :
    ∀ {fuel : ℕ} {msg : α} {buf : Bytes}, mergeLoop mergeField limit fuel msg buf = .ok (msg', rest) →
      P msg buf → P msg' rest := by
  intro fuel
  induction fuel with
  | zero =>
    intro msg buf h hP
    obtain ⟨rfl, rfl⟩ := Prod.mk.inj (Except.ok.inj h)
    exact hP
  | succ fuel ih =>
    intro msg buf h hP
    by_cases hlimit : limit < buf.length
    · obtain ⟨tag, wireType, buf₁, msg₁, buf₂, hkey, hfield, hrest⟩ := (mergeLoop_succ hlimit).mp h
      exact ih hrest (step hP hlimit hkey hfield)
    · rw [mergeLoop_stop (Nat.le_of_not_lt hlimit)] at h
      obtain ⟨rfl, rfl⟩ := Prod.mk.inj (Except.ok.inj h)
      exact hP

/-- The loop does not stop before the limit, if every field leaves less. -/
theorem length_le_limit (hshrinks : ∀ {msg : α} {tag : ℕ} {wireType : WireType} {buf : Bytes} {msg' : α} {rest : Bytes},
      mergeField msg tag wireType buf = .ok (msg', rest) → rest.length ≤ buf.length) :
    ∀ {fuel : ℕ} {msg : α} {buf : Bytes}, buf.length ≤ fuel →
      mergeLoop mergeField limit fuel msg buf = .ok (msg', rest) → rest.length ≤ limit := by
  intro fuel
  induction fuel with
  | zero =>
    intro msg buf hfuel h
    obtain ⟨rfl, rfl⟩ := Prod.mk.inj (Except.ok.inj h)
    omega
  | succ fuel ih =>
    intro msg buf hfuel h
    by_cases hlimit : limit < buf.length
    · obtain ⟨tag, wireType, buf₁, msg₁, buf₂, hkey, hfield, hrest⟩ := (mergeLoop_succ hlimit).mp h
      have hlt := length_lt_of_key hkey
      have hle := hshrinks hfield
      exact ih (by omega) hrest
    · rw [mergeLoop_stop (Nat.le_of_not_lt hlimit)] at h
      obtain ⟨rfl, rfl⟩ := Prod.mk.inj (Except.ok.inj h)
      omega

namespace Consumes

theorem suffix (hc : Consumes mergeField) {tag : ℕ} {wireType : WireType}
    (h : mergeField msg tag wireType buf = .ok (msg', rest)) : rest <:+ buf := by
  obtain ⟨part, rfl, -⟩ := skipField_part (hc h)
  exact List.suffix_append part rest

/-- The loop goes from field to field. -/
theorem fieldsTo (hc : Consumes mergeField) (h : mergeLoop mergeField limit fuel msg buf = .ok (msg', rest)) :
    FieldsTo buf rest := by
  refine mergeLoop_induction (P := fun _ at' => FieldsTo buf at') ?_ h .nil
  intro msg at' tag wireType buf₁ msg₁ buf₂ hto _ hkey hfield
  exact hto.snoc hkey (hc hfield)

theorem length_le (hc : Consumes mergeField) (hfuel : buf.length ≤ fuel)
    (h : mergeLoop mergeField limit fuel msg buf = .ok (msg', rest)) : rest.length ≤ limit :=
  length_le_limit (fun hfield => (hc.suffix hfield).length_le) hfuel h

/-- A nested loop that stops at the declared end has taken whole fields. -/
theorem whole_of_length (hc : Consumes mergeField) {content after : Bytes}
    (h : mergeLoop mergeField limit fuel msg (content ++ after) = .ok (msg', rest))
    (hlen : rest.length = after.length) : WholeFields content := by
  have hto := hc.fieldsTo h
  -- both are what is left of the same bytes
  obtain ⟨part, hpart⟩ := hto.suffix
  obtain rfl := (List.append_inj' hpart hlen).2
  exact WholeFields.of_append hto

end Consumes

end

/-- A decoder that accepts less: one that accepts all fields is the other one, if all fields are good. -/
theorem mergeLoop_restrict {α : Type} {f g : α → ℕ → WireType → Bytes → Except DecodeError (α × Bytes)}
    {good : ℕ → WireType → Bytes → Prop} (hc : Consumes g)
    (hiff : ∀ {msg : α} {tag : ℕ} {wireType : WireType} {buf : Bytes} {msg₁ : α} {rest : Bytes},
      g msg tag wireType buf = .ok (msg₁, rest) ↔ f msg tag wireType buf = .ok (msg₁, rest) ∧ good tag wireType buf)
    {limit : ℕ} {msg' : α} {rest : Bytes} : ∀ {fuel : ℕ} {msg : α} {buf : Bytes}, buf.length ≤ fuel →
      (mergeLoop g limit fuel msg buf = .ok (msg', rest) ↔ mergeLoop f limit fuel msg buf = .ok (msg', rest) ∧
        ∀ field body tag wireType, FieldsTo buf field → limit < field.length →
          decodeKey field = .ok ((tag, wireType), body) → good tag wireType body) := by
  intro fuel
  induction fuel with
  | zero =>
    intro msg buf hfuel
    refine (and_iff_left ?_).symm
    intro field body tag wireType hfield hlimit _
    have := hfield.suffix.length_le
    omega
  | succ fuel ih =>
    intro msg buf hfuel
    by_cases hlimit : limit < buf.length
    · rw [mergeLoop_succ hlimit, mergeLoop_succ hlimit]
      constructor
      · rintro ⟨tag, wireType, buf₁, msg₁, buf₂, hkey, hfield, hrest⟩
        have hlt := length_lt_of_key hkey
        have hle := (hc.suffix hfield).length_le
        obtain ⟨hfield', hgood⟩ := hiff.mp hfield
        obtain ⟨hrest', hall⟩ := (ih (by omega)).mp hrest
        refine ⟨⟨tag, wireType, buf₁, msg₁, buf₂, hkey, hfield', hrest'⟩, ?_⟩
        intro field body tag' wireType' hto hlong hkey'
        rcases (fieldsTo_cons hkey (hc hfield)).mp hto with rfl | hto
        · obtain ⟨hpair, rfl⟩ := Prod.mk.inj (Except.ok.inj (hkey.symm.trans hkey'))
          obtain ⟨rfl, rfl⟩ := Prod.mk.inj hpair
          exact hgood
        · exact hall field body tag' wireType' hto hlong hkey'
      · rintro ⟨⟨tag, wireType, buf₁, msg₁, buf₂, hkey, hfield, hrest⟩, hall⟩
        have hfield' := hiff.mpr ⟨hfield, hall buf buf₁ tag wireType .nil hlimit hkey⟩
        have hlt := length_lt_of_key hkey
        have hle := (hc.suffix hfield').length_le
        refine ⟨tag, wireType, buf₁, msg₁, buf₂, hkey, hfield', (ih (by omega)).mpr ⟨hrest, ?_⟩⟩
        intro field body tag' wireType' hto
        exact hall field body tag' wireType' (.field hkey (hc hfield') hto)
    · rw [mergeLoop_stop (Nat.le_of_not_lt hlimit), mergeLoop_stop (Nat.le_of_not_lt hlimit)]
      refine (and_iff_left ?_).symm
      intro field body tag wireType hfield hlong _
      have := hfield.suffix.length_le
      omega

/-! ### The run over whole fields -/

/-- The fields of the content, one after the other, take the message from the first value to the second. The bytes
after the content are there, but no field takes any of them. -/
inductive Merges {α : Type} (mergeField : α → ℕ → WireType → Bytes → Except DecodeError (α × Bytes)) (after : Bytes) :
    Bytes → α → α → Prop where
  | nil {msg : α} : Merges mergeField after [] msg msg
  | field {buf body rest : Bytes} {tag : ℕ} {wireType : WireType} {msg msg₁ msg' : α}
      (hkey : decodeKey buf = .ok ((tag, wireType), body)) (hskip : skipField wireType tag body = .ok rest)
      (hfield : mergeField msg tag wireType (body ++ after) = .ok (msg₁, rest ++ after))
      (h : Merges mergeField after rest msg₁ msg') : Merges mergeField after buf msg msg'

section

variable {α : Type} {mergeField : α → ℕ → WireType → Bytes → Except DecodeError (α × Bytes)} {after : Bytes}

/-- A loop over whole fields is a run, up to their end. -/
theorem Consumes.merges (hc : Consumes mergeField) {msg' : α} {rest : Bytes} :
    ∀ {fuel : ℕ} {msg : α} {content : Bytes}, WholeFields content → (content ++ after).length ≤ fuel →
      mergeLoop mergeField after.length fuel msg (content ++ after) = .ok (msg', rest) →
      rest = after ∧ Merges mergeField after content msg msg' := by
  intro fuel
  induction fuel with
  | zero =>
    intro msg content _ hfuel h
    rw [List.length_append] at hfuel
    obtain rfl : content = [] := List.eq_nil_of_length_eq_zero (by omega)
    obtain ⟨rfl, rfl⟩ := Prod.mk.inj (Except.ok.inj h)
    exact ⟨rfl, .nil⟩
  | succ fuel ih =>
    intro msg content hwhole hfuel h
    cases hwhole with
    | nil =>
      rw [List.nil_append, mergeLoop_stop le_rfl] at h
      obtain ⟨rfl, rfl⟩ := Prod.mk.inj (Except.ok.inj h)
      exact ⟨rfl, .nil⟩
    | @field _ body content₂ _ tag wireType hkey hskip hwhole =>
      have hlt := length_lt_of_key hkey
      have hkey' := decodeKey_append hkey after
      obtain ⟨part, rfl, hskipped⟩ := skipField_part hskip
      rw [List.length_append] at hlt hfuel
      have hlimit : after.length < (content ++ after).length := by
        rw [List.length_append]
        omega
      obtain ⟨tag', wireType', buf₁, msg₁, buf₂, hkey₁, hfield, hrest⟩ := (mergeLoop_succ hlimit).mp h
      obtain ⟨hpair, rfl⟩ := Prod.mk.inj (Except.ok.inj (hkey'.symm.trans hkey₁))
      obtain ⟨rfl, rfl⟩ := Prod.mk.inj hpair
      -- what the field leaves is what is left of the content
      have hbuf₂ := hc hfield
      rw [List.append_assoc, hskipped] at hbuf₂
      obtain rfl := Except.ok.inj hbuf₂
      have hfuel₂ : (content₂ ++ after).length ≤ fuel := by
        rw [List.length_append]
        omega
      obtain ⟨hend, hmerges⟩ := ih hwhole hfuel₂ hrest
      exact ⟨hend, .field hkey hskip hfield hmerges⟩

/-- All fields of a buffer. -/
theorem Consumes.merges_all (hc : Consumes mergeField) {msg msg' : α} {rest buf : Bytes} {fuel : ℕ}
    (hfuel : buf.length ≤ fuel) (h : mergeLoop mergeField 0 fuel msg buf = .ok (msg', rest)) :
    WholeFields buf ∧ Merges mergeField [] buf msg msg' := by
  have hnil : rest = [] := List.eq_nil_of_length_eq_zero (Nat.le_zero.mp (hc.length_le hfuel h))
  have hwhole : WholeFields buf := by
    have hto := hc.fieldsTo h
    rwa [hnil] at hto
  rw [← List.append_nil buf] at h hfuel
  exact ⟨hwhole, (hc.merges hwhole hfuel h).2⟩

theorem Consumes.mergeAll (hc : Consumes mergeField) {msg msg' : α} {buf : Bytes}
    (h : mergeAll mergeField msg buf = .ok msg') : Merges mergeField [] buf msg msg' := by
  obtain ⟨⟨msg₁, rest⟩, hloop, hmsg⟩ := bind_eq_ok.mp h
  obtain rfl := Except.ok.inj hmsg
  exact (hc.merges_all le_rfl hloop).2

namespace Merges

variable {content : Bytes} {msg msg' : α}

theorem wholeFields (h : Merges mergeField after content msg msg') : WholeFields content := by
  induction h with
  | nil => exact .nil
  | field hkey hskip _ _ ih => exact .field hkey hskip ih

/-- The loop over the fields is the run. -/
theorem mergeLoop_eq (h : Merges mergeField after content msg msg') {fuel : ℕ} (hfuel : content.length ≤ fuel) :
    mergeLoop mergeField after.length fuel msg (content ++ after) = .ok (msg', after) := by
  induction h generalizing fuel with
  | nil => exact mergeLoop_stop le_rfl
  | @field buf body rest tag wireType msg msg₁ msg' hkey hskip hfield _ ih =>
    have hlt := length_lt_of_key hkey
    obtain ⟨part, rfl, -⟩ := skipField_part hskip
    rw [List.length_append] at hlt
    obtain ⟨fuel, rfl⟩ : ∃ f, fuel = f + 1 := ⟨fuel - 1, by omega⟩
    have hlimit : after.length < (buf ++ after).length := by
      rw [List.length_append]
      omega
    exact (mergeLoop_succ hlimit).mpr ⟨_, _, _, _, _, decodeKey_append hkey after, hfield, ih (by omega)⟩

/-- A property that some fields establish and no field removes. -/
theorem accumulates (h : Merges mergeField after content msg msg') (q : α → Prop) (sel : ℕ → WireType → Bytes → Prop)
    (hstep : ∀ msg tag wireType field body msg₁ rest, FieldsTo content field →
      decodeKey field = .ok ((tag, wireType), body) →
      mergeField msg tag wireType (body ++ after) = .ok (msg₁, rest ++ after) →
      (q msg₁ ↔ q msg ∨ sel tag wireType (body ++ after))) :
    q msg' ↔ q msg ∨ ∃ field body tag wireType, FieldsTo content field ∧
      decodeKey field = .ok ((tag, wireType), body) ∧ sel tag wireType (body ++ after) := by
  induction h with
  | nil =>
    refine (or_iff_left ?_).symm
    rintro ⟨field, body, tag, wireType, hfield, hkey, -⟩
    obtain rfl := fieldsTo_nil.mp hfield
    exact not_decodeKey_nil hkey
  | @field buf body rest tag wireType msg msg₁ msg' hkey hskip hfield _ ih =>
    rw [ih fun _ _ _ _ _ _ _ hto => hstep _ _ _ _ _ _ _ (.field hkey hskip hto),
      hstep _ _ _ _ _ _ _ .nil hkey hfield, or_assoc]
    refine or_congr_right ?_
    constructor
    · rintro (hsel | ⟨field, body', tag', wireType', hfield', hkey', hsel⟩)
      · exact ⟨buf, _, _, _, .nil, hkey, hsel⟩
      · exact ⟨field, body', tag', wireType', .field hkey hskip hfield', hkey', hsel⟩
    · rintro ⟨field, body', tag', wireType', hfield', hkey', hsel⟩
      rcases (fieldsTo_cons hkey hskip).mp hfield' with rfl | hfield'
      · obtain ⟨hpair, rfl⟩ := Prod.mk.inj (Except.ok.inj (hkey.symm.trans hkey'))
        obtain ⟨rfl, rfl⟩ := Prod.mk.inj hpair
        exact .inl hsel
      · exact .inr ⟨field, body', tag', wireType', hfield', hkey', hsel⟩

/-- A value that the last of some fields sets, from its content and the bytes after it. -/
theorem last_iff {ρ : Type} (h : Merges mergeField after content msg msg') (get : α → Option ρ) (tags : ℕ → Prop)
    (value : ℕ → Bytes → Bytes → ρ)
    (hset : ∀ msg tag wireType buf msg₁ rest, tags tag → mergeField msg tag wireType buf = .ok (msg₁, rest) →
      wireType = .lengthDelimited ∧ ∃ content, decodeVarint buf = .ok (content.length, content ++ rest) ∧
        get msg₁ = some (value tag content rest))
    (hkeep : ∀ msg tag wireType buf msg₁ rest, ¬ tags tag →
      mergeField msg tag wireType buf = .ok (msg₁, rest) → get msg₁ = get msg) (r : ρ) :
    get msg' = some r ↔
      (∃ tag part rest, LastMessage tags content tag part rest ∧ r = value tag part (rest ++ after)) ∨
        ((∀ tag, tags tag → ¬ HasTag content tag) ∧ get msg = some r) := by
  induction h with
  | nil =>
    constructor
    · intro hget
      exact .inr ⟨fun _ _ => not_hasTag_nil, hget⟩
    · rintro (⟨tag, part, rest, ⟨-, hmessage, -⟩, -⟩ | ⟨-, hget⟩)
      · exact absurd hmessage not_hasMessage_nil
      · exact hget
  | @field buf body rest tag wireType msg msg₁ msg' hkey hskip hfield _ ih =>
    rw [ih]
    by_cases htag : tags tag
    · -- the first field sets the value, if no other one does
      obtain ⟨rfl, part, hpart, hget⟩ := hset _ _ _ _ _ _ htag hfield
      obtain ⟨part', hpart'⟩ := content_of_skip hskip
      obtain ⟨rfl, -⟩ := content_unique hpart (decodeVarint_content_append hpart' after)
      rw [hget]
      constructor
      · rintro (⟨tag', part', rest', ⟨htag', hmessage, hlast⟩, rfl⟩ | ⟨hnone, hr⟩)
        · exact .inl ⟨tag', part', rest', ⟨htag', (hasMessage_cons hkey hskip).mpr (.inr hmessage), hlast⟩, rfl⟩
        · obtain rfl := Option.some.inj hr
          exact .inl ⟨tag, part, rest, ⟨htag, (hasMessage_cons hkey hskip).mpr (.inl ⟨rfl, rfl, hpart'⟩),
            hnone⟩, rfl⟩
      · rintro (⟨tag', part', rest', ⟨htag', hmessage, hlast⟩, rfl⟩ | ⟨hnone, -⟩)
        · rcases (hasMessage_cons hkey hskip).mp hmessage with ⟨rfl, -, hcontent⟩ | hmessage
          · obtain ⟨rfl, rfl⟩ := content_unique hpart' hcontent
            exact .inr ⟨hlast, rfl⟩
          · exact .inl ⟨tag', part', rest', ⟨htag', hmessage, hlast⟩, rfl⟩
        · exact absurd ((hasTag_cons hkey hskip).mpr (.inl rfl)) (hnone tag htag)
    · rw [hkeep _ _ _ _ _ _ htag hfield]
      have htags : ∀ tag', tags tag' → (HasTag rest tag' ↔ HasTag buf tag') := by
        intro tag' htag'
        rw [hasTag_cons hkey hskip, or_iff_right]
        rintro rfl
        exact htag htag'
      refine or_congr ?_ (and_congr_left fun _ => forall₂_congr fun tag' htag' => not_congr (htags tag' htag'))
      constructor
      · rintro ⟨tag', part, rest', ⟨htag', hmessage, hlast⟩, rfl⟩
        exact ⟨tag', part, rest', ⟨htag', (hasMessage_cons hkey hskip).mpr (.inr hmessage), hlast⟩, rfl⟩
      · rintro ⟨tag', part, rest', ⟨htag', hmessage, hlast⟩, rfl⟩
        rcases (hasMessage_cons hkey hskip).mp hmessage with ⟨rfl, -, -⟩ | hmessage
        · exact absurd htag' htag
        · exact ⟨tag', part, rest', ⟨htag', hmessage, hlast⟩, rfl⟩

end Merges

end

/-! ### The readers of fields -/

section

variable {buf buf₁ rest : Bytes} {tag n len : ℕ} {wireType : WireType}

@[simp] theorem atField_eq_ok {α : Type} {message field : String} {r : Except DecodeError α} {a : α} :
    atField message field r = .ok a ↔ r = .ok a := by
  cases r <;> simp [atField, Except.mapError]

@[simp] theorem checkWireType_eq_ok {expected actual : WireType} {u : Unit} :
    checkWireType expected actual = .ok u ↔ expected = actual := by
  unfold checkWireType
  split <;> simp_all

/-- A field of a varint. -/
theorem varint_skips {α : Type} (f : ℕ → α) {value : α}
    (h : (checkWireType .varint wireType >>= fun _ => decodeVarint buf >>= fun x => .ok (f x.1, x.2)) =
      .ok (value, rest)) : skipField wireType tag buf = .ok rest := by
  obtain ⟨_, hwire, hread⟩ := bind_eq_ok.mp h
  obtain ⟨⟨n, rest₁⟩, hvar, heq⟩ := bind_eq_ok.mp hread
  obtain rfl := (Prod.mk.inj (Except.ok.inj heq)).2
  rw [← checkWireType_eq_ok.mp hwire]
  exact bind_eq_ok.mpr ⟨_, hvar, rfl⟩

theorem uint64.merge_skips {value : UInt64} (h : uint64.merge wireType buf = .ok (value, rest)) :
    skipField wireType tag buf = .ok rest := varint_skips UInt64.ofNat h

theorem int64.merge_skips {value : Int64} (h : int64.merge wireType buf = .ok (value, rest)) :
    skipField wireType tag buf = .ok rest := varint_skips (fun n => (UInt64.ofNat n).toInt64) h

theorem int32.merge_skips {value : Int32} (h : int32.merge wireType buf = .ok (value, rest)) :
    skipField wireType tag buf = .ok rest := varint_skips (fun n => (UInt64.ofNat n).toInt64.toInt32) h

theorem bool.merge_skips {value : Bool} (h : bool.merge wireType buf = .ok (value, rest)) :
    skipField wireType tag buf = .ok rest := varint_skips (fun n => decide (n ≠ 0)) h

/-- A value that is read and put into the message. -/
theorem read_of_bind {α β : Type} {read : Except DecodeError (β × Bytes)}
    {f : β × Bytes → Except DecodeError (α × Bytes)} {set : β → α} {msg' : α}
    (h : read >>= f = .ok (msg', rest)) (hf : ∀ value buf, f (value, buf) = .ok (set value, buf)) :
    ∃ value, read = .ok (value, rest) ∧ msg' = set value := by
  obtain ⟨⟨value, buf⟩, hread, hset⟩ := bind_eq_ok.mp h
  rw [hf] at hset
  obtain ⟨rfl, rfl⟩ := Prod.mk.inj (Except.ok.inj hset)
  exact ⟨value, hread, rfl⟩

/-- A field that is skipped. -/
theorem skip_of_bind {α : Type} {skip : Except DecodeError Bytes} {f : Bytes → Except DecodeError (α × Bytes)}
    {msg msg' : α} (h : skip >>= f = .ok (msg', rest)) (hf : ∀ buf, f buf = .ok (msg, buf)) :
    skip = .ok rest ∧ msg' = msg := by
  obtain ⟨buf, hskip, hset⟩ := bind_eq_ok.mp h
  rw [hf] at hset
  obtain ⟨rfl, rfl⟩ := Prod.mk.inj (Except.ok.inj hset)
  exact ⟨hskip, rfl⟩

/-- The declared bytes, if they are there. -/
theorem exists_content (h : decodeVarint buf = .ok (len, buf₁)) (hle : ¬ buf₁.length < len) :
    ∃ content after, decodeVarint buf = .ok (content.length, content ++ after) ∧ buf₁ = content ++ after ∧
      len = content.length := by
  have hlen : (buf₁.take len).length = len := List.length_take_of_le (Nat.le_of_not_lt hle)
  refine ⟨buf₁.take len, buf₁.drop len, ?_, (List.take_append_drop len buf₁).symm, hlen.symm⟩
  rw [hlen, List.take_append_drop, h]

section

variable {α : Type} {mergeField : α → ℕ → WireType → Bytes → Except DecodeError (α × Bytes)} {msg msg' : α}

/-- A nested message that is read up to its declared end is a run over its content. -/
theorem nested_eq_ok {underflow exceeded : DecodeError} (hc : Consumes mergeField) (h : (do
      let (len, buf) ← decodeVarint buf
      if buf.length < len then throw underflow
      let limit := buf.length - len
      let (msg, buf) ← mergeLoop mergeField limit buf.length msg buf
      if buf.length ≠ limit then throw exceeded
      return (msg, buf)) = .ok (msg', rest)) :
    ∃ content, decodeVarint buf = .ok (content.length, content ++ rest) ∧ Merges mergeField rest content msg msg' := by
  obtain ⟨⟨len, buf₁⟩, hlen, hbody⟩ := bind_eq_ok.mp h
  dsimp only at hbody
  split at hbody
  · cases hbody
  · rename_i hle
    obtain ⟨content, after, hcontent, rfl, rfl⟩ := exists_content hlen hle
    rw [Reads.limit_eq] at hbody
    obtain ⟨⟨msg₁, rest₁⟩, hloop, hend⟩ := bind_eq_ok.mp hbody
    dsimp only at hend
    split at hend
    · cases hend
    · rename_i hstop
      obtain ⟨rfl, rfl⟩ := Prod.mk.inj (Except.ok.inj hend)
      have hwhole := hc.whole_of_length hloop (not_not.mp hstop)
      obtain ⟨rfl, hmerges⟩ := hc.merges hwhole le_rfl hloop
      exact ⟨content, hcontent, hmerges⟩

theorem nested_of_merges {underflow exceeded : DecodeError} {content : Bytes}
    (hcontent : decodeVarint buf = .ok (content.length, content ++ rest))
    (h : Merges mergeField rest content msg msg') : (do
      let (len, buf) ← decodeVarint buf
      if buf.length < len then throw underflow
      let limit := buf.length - len
      let (msg, buf) ← mergeLoop mergeField limit buf.length msg buf
      if buf.length ≠ limit then throw exceeded
      return (msg, buf)) = .ok (msg', rest) := by
  have hle : content.length ≤ (content ++ rest).length := by
    rw [List.length_append]
    omega
  refine bind_eq_ok.mpr ⟨_, hcontent, ?_⟩
  dsimp only
  rw [if_neg (Nat.not_lt_of_le hle), Reads.limit_eq]
  refine bind_eq_ok.mpr ⟨_, h.mergeLoop_eq hle, ?_⟩
  simp only [ne_eq, not_true, if_false]
  rfl

theorem message.merge_eq_ok (hc : Consumes mergeField)
    (h : message.merge mergeField wireType msg buf = .ok (msg', rest)) :
    wireType = .lengthDelimited ∧ ∃ content, decodeVarint buf = .ok (content.length, content ++ rest) ∧
      Merges mergeField rest content msg msg' := by
  obtain ⟨_, hwire, hread⟩ := bind_eq_ok.mp h
  exact ⟨(checkWireType_eq_ok.mp hwire).symm, nested_eq_ok hc hread⟩

theorem message.merge_skips (hc : Consumes mergeField)
    (h : message.merge mergeField wireType msg buf = .ok (msg', rest)) :
    skipField wireType tag buf = .ok rest := by
  obtain ⟨rfl, content, hcontent, -⟩ := message.merge_eq_ok hc h
  exact skipField_lengthDelimited hcontent

end

end

end Richat.Lib.Protobuf
