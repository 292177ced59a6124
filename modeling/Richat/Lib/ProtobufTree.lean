import Richat.Lib.ProtobufDecode

/-!
# Messages inside each other

A message that is written in two passes: the length first, because it stands before the bytes of a nested
message, and the bytes after it. `Nests` says that the two passes agree and that a reader, who only knows
keys, numbers and lengths, finds the fields in the nesting that they were written with.
-/

namespace Richat.Lib.Protobuf

/-- The fields of a message, as they are nested. -/
inductive Tree where
  | varint (tag value : ℕ)
  | bytes (tag : ℕ) (value : Bytes)
  /-- a nested message: the length that is written before it, its bytes, and what they are -/
  | message (tag declared : ℕ) (body : Bytes) (fields : List Tree)

/-- The bytes are read as these fields: the length before a nested message is the one of its bytes, and
nothing is left over. -/
inductive ReadsAs : Bytes → List Tree → Prop where
  | nil : ReadsAs [] []
  | varint {buf buf₁ rest : Bytes} {tag value : ℕ} {trees : List Tree}
      (hkey : decodeKey buf = .ok ((tag, .varint), buf₁)) (hval : decodeVarint buf₁ = .ok (value, rest))
      (h : ReadsAs rest trees) : ReadsAs buf (.varint tag value :: trees)
  | bytes {buf buf₁ rest value : Bytes} {tag : ℕ} {trees : List Tree}
      (hkey : decodeKey buf = .ok ((tag, .lengthDelimited), buf₁))
      (hval : splitDelimited buf₁ = .ok (value, rest)) (h : ReadsAs rest trees) :
      ReadsAs buf (.bytes tag value :: trees)
  | message {buf buf₁ rest body : Bytes} {tag declared : ℕ} {fields trees : List Tree}
      (hkey : decodeKey buf = .ok ((tag, .lengthDelimited), buf₁))
      (hlen : decodeVarint buf₁ = .ok (declared, body ++ rest)) (hdeclared : declared = body.length)
      (hbody : ReadsAs body fields) (h : ReadsAs rest trees) :
      ReadsAs buf (.message tag declared body fields :: trees)

/-! ### What comes after does not matter -/

theorem decodeVarintAux_append (post : Bytes) : ∀ {fuel n : ℕ} {buf rest : Bytes},
    decodeVarintAux fuel buf = some (n, rest) →
    decodeVarintAux fuel (buf ++ post) = some (n, rest ++ post) := by
  intro fuel
  induction fuel with
  | zero => intro n buf rest h; simp [decodeVarintAux] at h
  | succ fuel ih =>
    intro n buf rest h
    cases buf with
    | nil => simp [decodeVarintAux] at h
    | cons byte buf =>
      rw [List.cons_append]
      unfold decodeVarintAux at h ⊢
      split
      · rename_i hlast
        rw [if_pos hlast] at h
        split at h
        · simp at h
        · rename_i hbit
          rw [if_neg hbit]
          simp only [Option.some.injEq, Prod.mk.injEq] at h ⊢
          exact ⟨h.1, by rw [h.2]⟩
      · rename_i hmore
        rw [if_neg hmore] at h
        cases hrest : decodeVarintAux fuel buf with
        | none => simp [hrest] at h
        | some r =>
          obtain ⟨high, rest'⟩ := r
          simp only [hrest, Option.some.injEq, Prod.mk.injEq] at h
          rw [ih hrest]
          simp only [Option.some.injEq, Prod.mk.injEq]
          exact ⟨h.1, by rw [h.2]⟩

theorem decodeVarint_append {buf rest : Bytes} {n : ℕ} (h : decodeVarint buf = .ok (n, rest)) (post : Bytes) :
    decodeVarint (buf ++ post) = .ok (n, rest ++ post) := by
  unfold decodeVarint at h ⊢
  cases haux : decodeVarintAux 10 buf with
  | none => simp [haux] at h
  | some r =>
    obtain rfl : r = (n, rest) := by simpa [haux] using h
    rw [decodeVarintAux_append post haux]

theorem decodeKey_append {buf rest : Bytes} {key : ℕ × WireType} (h : decodeKey buf = .ok (key, rest))
    (post : Bytes) : decodeKey (buf ++ post) = .ok (key, rest ++ post) := by
  unfold decodeKey at h ⊢
  cases hvar : decodeVarint buf with
  | error e => simp [hvar, bind, Except.bind] at h
  | ok r =>
    obtain ⟨n, buf₁⟩ := r
    rw [decodeVarint_append hvar post]
    simp only [hvar, bind, Except.bind, throw, throwThe, MonadExceptOf.throw, pure, Except.pure] at h ⊢
    split_ifs at h ⊢ with hkey hzero
    · cases htype : WireType.tryFrom (n % 8) <;> simp [htype] at h
    · cases htype : WireType.tryFrom (n % 8) with
      | none => simp [htype] at h
      | some wireType =>
        simp only [htype, Except.ok.injEq, Prod.mk.injEq] at h ⊢
        exact ⟨h.1, by rw [h.2]⟩

theorem splitDelimited_append {buf rest value : Bytes} (h : splitDelimited buf = .ok (value, rest))
    (post : Bytes) : splitDelimited (buf ++ post) = .ok (value, rest ++ post) := by
  unfold splitDelimited at h ⊢
  cases hvar : decodeVarint buf with
  | error e => simp [hvar, bind, Except.bind] at h
  | ok r =>
    obtain ⟨len, buf₁⟩ := r
    rw [decodeVarint_append hvar post]
    simp only [hvar, bind, Except.bind, throw, throwThe, MonadExceptOf.throw, pure, Except.pure] at h ⊢
    split at h
    · simp at h
    · rename_i hlen
      have hle : len ≤ buf₁.length := by omega
      simp only [Except.ok.injEq, Prod.mk.injEq] at h
      rw [if_neg (by rw [List.length_append]; omega), List.take_append_of_le_length hle,
        List.drop_append_of_le_length hle, h.1, h.2]

theorem ReadsAs.append {buf buf' : Bytes} {trees trees' : List Tree} (h : ReadsAs buf trees)
    (h' : ReadsAs buf' trees') : ReadsAs (buf ++ buf') (trees ++ trees') := by
  induction h with
  | nil => exact h'
  | varint hkey hval _ ih => exact .varint (decodeKey_append hkey _) (decodeVarint_append hval _) ih
  | bytes hkey hval _ ih => exact .bytes (decodeKey_append hkey _) (splitDelimited_append hval _) ih
  | message hkey hlen hdeclared hbody _ _ ih =>
    have hlen := decodeVarint_append hlen buf'
    rw [List.append_assoc] at hlen
    exact .message (decodeKey_append hkey _) hlen hdeclared hbody ih

/-! ### The two passes of a writer -/

/-- The length pass is right, if one of both fits into memory, and the bytes are read as the trees. -/
structure Nests (out : Bytes) (len : ℕ) (trees : List Tree) : Prop where
  measures : out.length < 2 ^ 64 ∨ len < 2 ^ 64 → len = out.length
  reads : out.length < 2 ^ 64 → ReadsAs out trees

namespace Nests

variable {out out' value : Bytes} {len len' tag : ℕ} {trees trees' : List Tree}

theorem nil : Nests [] 0 [] := ⟨fun _ => rfl, fun _ => .nil⟩

theorem append (h : Nests out len trees) (h' : Nests out' len' trees') :
    Nests (out ++ out') (len + len') (trees ++ trees') := by
  constructor
  · intro hlt
    rw [List.length_append] at hlt ⊢
    have := h.measures (by omega)
    have := h'.measures (by omega)
    omega
  · intro hlt
    rw [List.length_append] at hlt
    exact (h.reads (by omega)).append (h'.reads (by omega))

/-- A field that is left out on a condition. -/
theorem ite {p : Prop} [Decidable p] (h : p → Nests out len trees) :
    Nests (if p then out else []) (if p then len else 0) (if p then trees else []) := by
  by_cases hp : p
  · simpa only [if_pos hp] using h hp
  · simpa only [if_neg hp] using nil

theorem elim {α : Type*} {f : α → Bytes} {l : α → ℕ} {t : α → List Tree} (o : Option α)
    (h : ∀ a, Nests (f a) (l a) (t a)) : Nests (o.elim [] f) (o.elim 0 l) (o.elim [] t) := by
  cases o with
  | none => exact nil
  | some a => exact h a

theorem flatMap {α : Type*} {f : α → Bytes} {l : α → ℕ} {t : α → List Tree} (h : ∀ a, Nests (f a) (l a) (t a))
    (xs : List α) : Nests (xs.flatMap f) (xs.map l).sum (xs.flatMap t) := by
  induction xs with
  | nil => exact nil
  | cons x xs ih =>
    rw [List.flatMap_cons, List.map_cons, List.sum_cons, List.flatMap_cons]
    exact (h x).append ih

theorem varint (hpos : 0 < tag) (htag : tag < 2 ^ 29) (value : UInt64) :
    Nests (varintEncode tag value) (varintEncodedLen tag value) [.varint tag value.toNat] := by
  constructor
  · intro _
    rw [varintEncode, List.length_append, length_encodeKey htag, length_encodeVarint value.toNat_lt]
    rfl
  · intro _
    have hval := decodeVarint_encode value.toNat_lt []
    rw [List.append_nil] at hval
    exact .varint (decodeKey_encode hpos htag .varint _) hval .nil

theorem bool (hpos : 0 < tag) (htag : tag < 2 ^ 29) (value : Bool) :
    Nests (bool.encode tag value) (bool.encodedLen tag value) [.varint tag (if value then 1 else 0)] := by
  have h := varint hpos htag (if value then 1 else 0)
  cases value <;> exact h

/-- What stands after a key: the length and that many bytes. -/
theorem key (htag : tag < 2 ^ 29) (h : out.length < 2 ^ 64 ∨ len < 2 ^ 64 → len = out.length) :
    let all := encodeKey tag .lengthDelimited ++ encodeVarint len ++ out
    let total := keyLen tag + encodedLenVarint len + len
    all.length < 2 ^ 64 ∨ total < 2 ^ 64 → total = all.length := by
  intro all total hlt
  simp only [all, total, List.length_append] at hlt ⊢
  have hlen : len = out.length := h (by omega)
  rw [length_encodeKey htag, length_encodeVarint (by omega), hlen]

theorem bytes (hpos : 0 < tag) (htag : tag < 2 ^ 29) (value : Bytes) :
    Nests (bytesEncode tag value) (bytesEncodedLen tag value) [.bytes tag value] := by
  refine ⟨key htag fun _ => rfl, fun hlt => ?_⟩
  rw [bytesEncode, List.length_append] at hlt
  have hval := splitDelimited_encode (show value.length < 2 ^ 64 by omega) []
  rw [List.append_nil] at hval
  rw [bytesEncode, List.append_assoc]
  exact .bytes (decodeKey_encode hpos htag .lengthDelimited _) hval .nil

/-- A nested message: `key`, and its own fields in its own bytes. -/
theorem nested (hpos : 0 < tag) (htag : tag < 2 ^ 29) (h : Nests out len trees) :
    Nests (encodeKey tag .lengthDelimited ++ encodeVarint len ++ out)
      (keyLen tag + encodedLenVarint len + len) [.message tag len out trees] := by
  refine ⟨key htag h.measures, fun hlt => ?_⟩
  rw [List.length_append] at hlt
  have hout : out.length < 2 ^ 64 := by omega
  have hlen := h.measures (.inl hout)
  have hval := decodeVarint_encode (hlen ▸ hout) (out ++ [])
  rw [List.append_nil] at hval
  rw [List.append_assoc]
  refine .message (decodeKey_encode hpos htag .lengthDelimited _) ?_ hlen (h.reads hout) .nil
  rw [List.append_nil]
  exact hval

section

variable {α : Type*} [WireMessage α]

/-- The tree of a nested message with these fields. -/
def treeOf (tag : ℕ) (fields : α → List Tree) (msg : α) : Tree :=
  .message tag (WireMessage.encodedLen msg) (WireMessage.encodeRaw msg) (fields msg)

theorem message {fields : α → List Tree} (hpos : 0 < tag) (htag : tag < 2 ^ 29) {msg : α}
    (h : Nests (WireMessage.encodeRaw msg) (WireMessage.encodedLen msg) (fields msg)) :
    Nests (message.encode tag msg) (message.encodedLen tag msg) [treeOf tag fields msg] :=
  nested hpos htag h

theorem messageRepeated {fields : α → List Tree} (hpos : 0 < tag) (htag : tag < 2 ^ 29)
    (h : ∀ msg : α, Nests (WireMessage.encodeRaw msg) (WireMessage.encodedLen msg) (fields msg))
    (msgs : List α) :
    Nests (message.encodeRepeated tag msgs) (message.encodedLenRepeated tag msgs)
      (msgs.map (treeOf tag fields)) := by
  have hlen : message.encodedLenRepeated tag msgs = (msgs.map (message.encodedLen tag)).sum := by
    rw [message.encodedLenRepeated, Writes.sum_key]
    refine congrArg List.sum (List.map_congr_left fun msg _ => ?_)
    rw [message.encodedLen]
    omega
  have hall := flatMap (fun msg => message hpos htag (h msg)) msgs
  rw [← List.map_eq_flatMap] at hall
  rw [hlen]
  exact hall

end

end Nests

end Richat.Lib.Protobuf
