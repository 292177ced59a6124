import Richat.Lib.ProtobufMerge

/-!
# Fields at another place

What a field reads does not depend on the bytes after it, so a run over whole fields is a run again when other
bytes come after them. A decoder that stores places stores others then: `Merges.map` moves a run to a decoder of
another buffer.
-/

namespace Richat.Lib.Protobuf

/-- What is read does not depend on the bytes after it. -/
def Local {β : Type} (read : Bytes → Except DecodeError (β × Bytes)) : Prop :=
  ∀ {body after rest : Bytes} {value : β}, read (body ++ after) = .ok (value, rest ++ after) →
    ∀ after', read (body ++ after') = .ok (value, rest ++ after')

theorem local_decodeVarint : Local decodeVarint := by
  intro body after rest n h after'
  obtain ⟨part, hpart, -, -, htakes⟩ := decodeVarint_part h
  rw [← List.append_assoc] at hpart
  obtain rfl := List.append_cancel_right hpart
  rw [List.append_assoc]
  exact htakes (rest ++ after')

section

variable {body after rest : Bytes} {wireType : WireType}

/-- The declared bytes of a field. -/
theorem content_move {content : Bytes}
    (h : decodeVarint (body ++ after) = .ok (content.length, content ++ (rest ++ after))) (after' : Bytes) :
    decodeVarint (body ++ after') = .ok (content.length, content ++ (rest ++ after')) := by
  rw [← List.append_assoc] at h ⊢
  exact local_decodeVarint h after'

theorem Local.atField {β : Type} {read : Bytes → Except DecodeError (β × Bytes)} (h : Local read)
    (message field : String) : Local fun buf => atField message field (read buf) := by
  intro body after rest value hread after'
  exact atField_eq_ok.mpr (h (atField_eq_ok.mp hread) after')

/-- A varint that is turned into a value. -/
theorem local_varint {β : Type} (f : ℕ → β) : Local fun buf =>
    checkWireType .varint wireType >>= fun _ => decodeVarint buf >>= fun x => .ok (f x.1, x.2) := by
  intro body after rest value h after'
  obtain ⟨_, hwire, hread⟩ := bind_eq_ok.mp h
  obtain ⟨⟨n, rest₁⟩, hvar, heq⟩ := bind_eq_ok.mp hread
  obtain ⟨rfl, rfl⟩ := Prod.mk.inj (Except.ok.inj heq)
  exact bind_eq_ok.mpr ⟨_, hwire, bind_eq_ok.mpr ⟨_, local_decodeVarint hvar after', rfl⟩⟩

theorem uint64.local_merge : Local (uint64.merge wireType) := local_varint UInt64.ofNat

theorem bool.local_merge : Local (bool.merge wireType) := local_varint fun n => decide (n ≠ 0)

theorem skipField_move {tag : ℕ} (h : skipField wireType tag (body ++ after) = .ok (rest ++ after)) (after' : Bytes) :
    skipField wireType tag (body ++ after') = .ok (rest ++ after') := by
  obtain ⟨part, hpart, hskipped⟩ := skipField_part h
  rw [← List.append_assoc] at hpart
  obtain rfl := List.append_cancel_right hpart
  rw [List.append_assoc]
  exact hskipped (rest ++ after')

end

/-! ### Runs -/

namespace Merges

variable {α : Type} {f : α → ℕ → WireType → Bytes → Except DecodeError (α × Bytes)} {after content content' : Bytes}
  {msg msg₁ msg' : α}

theorem append (h : Merges f (content' ++ after) content msg msg₁) (h' : Merges f after content' msg₁ msg') :
    Merges f after (content ++ content') msg msg' := by
  induction h with
  | nil => exact h'
  | @field buf body rest tag wireType msg msg₁ msg' hkey hskip hfield _ ih =>
    refine .field (decodeKey_append hkey content') ?_ ?_ (ih h')
    · obtain ⟨part, rfl, hskipped⟩ := skipField_part hskip
      rw [List.append_assoc]
      exact hskipped (rest ++ content')
    · rwa [List.append_assoc, List.append_assoc]

/-- A run over the same fields: the other decoder has other bytes after them, and another value at every field. -/
theorem map {β : Type} {g : β → ℕ → WireType → Bytes → Except DecodeError (β × Bytes)} (after' : Bytes) (r : α → β)
    (h : Merges f after content msg msg')
    (hstep : ∀ {msg msg₁ : α} {tag : ℕ} {wireType : WireType} {body rest : Bytes}, body <:+ content →
      f msg tag wireType (body ++ after) = .ok (msg₁, rest ++ after) →
      g (r msg) tag wireType (body ++ after') = .ok (r msg₁, rest ++ after')) :
    Merges g after' content (r msg) (r msg') := by
  induction h with
  | nil => exact .nil
  | @field buf body rest tag wireType msg msg₁ msg' hkey hskip hfield _ ih =>
    obtain ⟨key, rfl, -, -⟩ := decodeKey_part hkey
    obtain ⟨part, rfl, -⟩ := skipField_part hskip
    have hbody : part ++ rest <:+ key ++ (part ++ rest) := List.suffix_append key _
    refine .field hkey hskip (hstep hbody hfield) (ih fun hsuffix => hstep ?_)
    exact hsuffix.trans ((List.suffix_append part rest).trans hbody)

/-- The last field of a tag, with the run up to it and the one after it. -/
theorem split_last (h : Merges f after content msg msg') {tag₀ : ℕ} (htag : HasTag content tag₀) :
    ∃ part field body rest wireType msg₁ msg₂, content = part ++ field ∧ Merges f (field ++ after) part msg msg₁ ∧
      decodeKey field = .ok ((tag₀, wireType), body) ∧ skipField wireType tag₀ body = .ok rest ∧
      f msg₁ tag₀ wireType (body ++ after) = .ok (msg₂, rest ++ after) ∧ Merges f after rest msg₂ msg' ∧
      ¬ HasTag rest tag₀ := by
  induction h with
  | nil => exact absurd htag not_hasTag_nil
  | @field buf body rest tag wireType msg msg₁ msg' hkey hskip hfield hmerges ih =>
    by_cases hlater : HasTag rest tag₀
    · obtain ⟨part, field, body', rest', wireType', msg₂, msg₃, rfl, hpart, hkey', hskip', hfield', hrest, hnone⟩ :=
        ih hlater
      obtain ⟨first, rfl, hskipped⟩ := skipField_part hskip
      obtain ⟨key, rfl, -, htakes⟩ := decodeKey_part hkey
      refine ⟨key ++ (first ++ part), field, body', rest', wireType', msg₂, msg₃, by simp only [List.append_assoc], ?_,
        hkey', hskip', hfield', hrest, hnone⟩
      refine .field (htakes (first ++ part)) (hskipped part) ?_ hpart
      simpa only [List.append_assoc] using hfield
    · have htag₀ : tag₀ = tag := ((hasTag_cons hkey hskip).mp htag).resolve_right hlater
      subst htag₀
      exact ⟨[], buf, body, rest, wireType, msg, msg₁, rfl, .nil, hkey, hskip, hfield, hmerges, hlater⟩

/-- The run over a whole buffer is what its decoder does. -/
theorem mergeAll_eq (h : Merges f [] content msg msg') : mergeAll f msg content = .ok msg' := by
  have hloop := h.mergeLoop_eq (le_refl content.length)
  rw [List.append_nil, List.length_nil] at hloop
  exact bind_eq_ok.mpr ⟨_, hloop, rfl⟩

end Merges

/-- A varint of ten bytes at most. -/
structure IsVarint (part : Bytes) (n : ℕ) : Prop where
  takes : Takes decodeVarint part n
  pos : 0 < part.length
  length_le : part.length ≤ 10

theorem IsVarint.of_decodeVarint {n : ℕ} {buf rest : Bytes} (h : decodeVarint buf = .ok (n, rest)) :
    ∃ part, buf = part ++ rest ∧ IsVarint part n := by
  obtain ⟨part, hpart, hne, hlen, htakes⟩ := decodeVarint_part h
  exact ⟨part, hpart, htakes, List.length_pos_iff.mpr hne, hlen⟩

theorem IsVarint.encode {n : ℕ} (hn : n < 2 ^ 64) : IsVarint (encodeVarint n) n where
  takes rest := decodeVarint_encode hn rest
  pos := List.length_pos_iff.mpr (encodeVarint_ne_nil n)
  length_le := by
    obtain ⟨part, hpart, hlen⟩ : ∃ part, encodeVarint n = part ∧ part.length ≤ 10 := by
      have h := decodeVarint_encode hn []
      obtain ⟨part, hpart, -, hlen, -⟩ := decodeVarint_part h
      rw [List.append_nil, List.append_nil] at hpart
      exact ⟨part, hpart, hlen⟩
    rwa [hpart]

theorem decodeVarintAux_lt : ∀ {fuel n : ℕ} {part rest : Bytes}, decodeVarintAux fuel (part ++ rest) = some (n, rest) →
    n < 128 ^ part.length := by
  intro fuel
  induction fuel with
  | zero => intro n part rest h; simp [decodeVarintAux] at h
  | succ fuel ih =>
    intro n part rest h
    cases part with
    | nil =>
      -- the reader takes a byte
      obtain ⟨part, hbuf, hne, -⟩ := decodeVarintAux_part h
      exact absurd (List.self_eq_append_left.mp hbuf) hne
    | cons byte part =>
      rw [List.cons_append] at h
      unfold decodeVarintAux at h
      have hpos : 0 < 128 ^ part.length := Nat.pow_pos (by decide)
      rw [List.length_cons, pow_succ]
      split at h
      · split at h
        · cases h
        · obtain ⟨rfl, -⟩ := Prod.mk.inj (Option.some.inj h)
          nlinarith
      · cases hrest : decodeVarintAux fuel (part ++ rest) with
        | none => simp [hrest] at h
        | some r =>
          obtain ⟨high, rest₁⟩ := r
          simp only [hrest, Option.some.injEq, Prod.mk.injEq] at h
          obtain ⟨rfl, rfl⟩ := h
          have hhigh := ih hrest
          have hbyte := byte.toNat_lt
          omega

theorem IsVarint.lt {part : Bytes} {n : ℕ} (h : IsVarint part n) : n < 128 ^ part.length := by
  have htakes := h.takes []
  unfold decodeVarint at htakes
  cases haux : decodeVarintAux 10 (part ++ []) with
  | none =>
    rw [haux] at htakes
    cases htakes
  | some r =>
    rw [haux] at htakes
    obtain rfl := Except.ok.inj htakes
    exact decodeVarintAux_lt haux

/-- A number that is not much greater takes one more byte at most. -/
theorem IsVarint.encodedLenVarint_le {part : Bytes} {n m : ℕ} (h : IsVarint part n) (hm : m ≤ n + 127)
    (hfits : m < 2 ^ 64) : encodedLenVarint m ≤ part.length + 1 := by
  have hlt := h.lt
  have hpos : 1 ≤ 128 ^ part.length := Nat.one_le_pow _ _ (by decide)
  have hpow : m < 128 ^ (part.length + 1) := by
    rw [pow_succ]
    omega
  rw [encodedLenVarint_eq hfits]
  exact Nat.succ_le_of_lt (Nat.log_lt_of_lt_pow' (Nat.succ_ne_zero _) hpow)

end Richat.Lib.Protobuf
