import Richat.Lib.Protobuf

/-!
# Reading the wire format

A reader takes the bytes that are left and gives back the value and the bytes after it. A message is read
field by field (`mergeLoop`), and `Reads` says that some bytes, whatever comes after them, take a message
from one value to another: the rules for the fields of a message compose along `++`, as the fields are
written.
-/

namespace Richat.Lib.Protobuf

/-! ### Errors -/

inductive DecodeErrorKind where
  | invalidVarint
  | invalidWireType (value : ℕ)
  | invalidKey (key : ℕ)
  | invalidTag
  | unexpectedWireType (expected actual : WireType)
  | bufferUnderflow
  | delimitedLengthExceeded
  | recursionLimitReached
  | unexpectedEndGroupTag
  | invalidString
  /-- an error of the caller -/
  | other (description : String)
  deriving DecidableEq

/-- An error, with the messages and fields that were being read, the innermost first. -/
structure DecodeError where
  kind : DecodeErrorKind
  stack : List (String × String)
  deriving DecidableEq

namespace DecodeError

def new (kind : DecodeErrorKind) : DecodeError := ⟨kind, []⟩

def push (error : DecodeError) (message field : String) : DecodeError :=
  { error with stack := error.stack ++ [(message, field)] }

end DecodeError

/-- The error of a field. -/
def atField {α : Type*} (message field : String) (r : Except DecodeError α) : Except DecodeError α :=
  r.mapError (·.push message field)

@[simp] theorem atField_ok {α : Type*} (message field : String) (a : α) :
    atField message field (.ok a) = .ok a := rfl

/-! ### Varints and keys -/

/-- At most `fuel` bytes: the last one of ten has a single bit. -/
def decodeVarintAux : ℕ → Bytes → Option (ℕ × Bytes)
  | 0, _ => none
  | _, [] => none
  | fuel + 1, byte :: rest =>
    if byte.toNat < 128 then
      if fuel = 0 ∧ 2 ≤ byte.toNat then none else some (byte.toNat, rest)
    else
      match decodeVarintAux fuel rest with
      | none => none
      | some (high, rest) => some (byte.toNat - 128 + 128 * high, rest)

def decodeVarint (buf : Bytes) : Except DecodeError (ℕ × Bytes) :=
  match decodeVarintAux 10 buf with
  | none => .error (.new .invalidVarint)
  | some r => .ok r

def WireType.tryFrom : ℕ → Option WireType
  | 0 => some varint
  | 1 => some sixtyFourBit
  | 2 => some lengthDelimited
  | 3 => some startGroup
  | 4 => some endGroup
  | 5 => some thirtyTwoBit
  | _ => none

def decodeKey (buf : Bytes) : Except DecodeError ((ℕ × WireType) × Bytes) := do
  let (key, buf) ← decodeVarint buf
  if 2 ^ 32 ≤ key then throw (.new (.invalidKey key))
  match WireType.tryFrom (key % 8) with
  | none => throw (.new (.invalidWireType (key % 8)))
  | some wireType =>
    if key / 8 = 0 then throw (.new .invalidTag)
    return ((key / 8, wireType), buf)

def checkWireType (expected actual : WireType) : Except DecodeError Unit :=
  if expected = actual then .ok () else .error (.new (.unexpectedWireType expected actual))

/-! ### Fields that are not known -/

/-- How deep messages and groups may be nested. -/
def recursionLimit : ℕ := 100

/-- The fields of a group up to its end; every turn takes a byte at least, so `buf.length` turns are
enough. -/
def skipGroup (skipField : WireType → ℕ → Bytes → Except DecodeError Bytes) (tag : ℕ) :
    ℕ → Bytes → Except DecodeError Bytes
  | 0, _ => .error (.new .invalidVarint)
  | fuel + 1, buf => do
    let ((innerTag, innerWireType), buf) ← decodeKey buf
    if innerWireType = .endGroup then
      if innerTag = tag then return buf else throw (.new .unexpectedEndGroupTag)
    else skipGroup skipField tag fuel (← skipField innerWireType innerTag buf)

/-- `buf.advance(len)`, for a length that may be too large. -/
def advance (len : ℕ) (buf : Bytes) : Except DecodeError Bytes :=
  if buf.length < len then .error (.new .bufferUnderflow) else .ok (buf.drop len)

/-- At most `depth` groups inside each other. -/
def skipFieldAux : ℕ → WireType → ℕ → Bytes → Except DecodeError Bytes
  | 0, _, _, _ => .error (.new .recursionLimitReached)
  | depth + 1, wireType, tag, buf =>
    match wireType with
    | .varint => do return (← decodeVarint buf).2
    | .thirtyTwoBit => advance 4 buf
    | .sixtyFourBit => advance 8 buf
    | .lengthDelimited => do
      let (len, buf) ← decodeVarint buf
      advance len buf
    | .startGroup => skipGroup (skipFieldAux depth) tag (buf.length + 1) buf
    | .endGroup => .error (.new .unexpectedEndGroupTag)

def skipField (wireType : WireType) (tag : ℕ) (buf : Bytes) : Except DecodeError Bytes :=
  skipFieldAux recursionLimit wireType tag buf

/-! ### Scalar fields -/

def uint64.merge (wireType : WireType) (buf : Bytes) : Except DecodeError (UInt64 × Bytes) := do
  checkWireType .varint wireType
  let (value, buf) ← decodeVarint buf
  return (UInt64.ofNat value, buf)

def int64.merge (wireType : WireType) (buf : Bytes) : Except DecodeError (Int64 × Bytes) := do
  checkWireType .varint wireType
  let (value, buf) ← decodeVarint buf
  return ((UInt64.ofNat value).toInt64, buf)

/-- The higher bits are cut off. -/
def int32.merge (wireType : WireType) (buf : Bytes) : Except DecodeError (Int32 × Bytes) := do
  checkWireType .varint wireType
  let (value, buf) ← decodeVarint buf
  return ((UInt64.ofNat value).toInt64.toInt32, buf)

def bool.merge (wireType : WireType) (buf : Bytes) : Except DecodeError (Bool × Bytes) := do
  checkWireType .varint wireType
  let (value, buf) ← decodeVarint buf
  return (value ≠ 0, buf)

/-- The bytes of a length-delimited field. -/
def splitDelimited (buf : Bytes) : Except DecodeError (Bytes × Bytes) := do
  let (len, buf) ← decodeVarint buf
  if buf.length < len then throw (.new .bufferUnderflow)
  return (buf.take len, buf.drop len)

def bytes.merge (wireType : WireType) (buf : Bytes) : Except DecodeError (Bytes × Bytes) := do
  checkWireType .lengthDelimited wireType
  splitDelimited buf

/-! ### Messages -/

section

variable {α : Type} (mergeField : α → ℕ → WireType → Bytes → Except DecodeError (α × Bytes))

/-- The fields of a message while more than `limit` bytes are left. Every turn takes the bytes of a key,
so `buf.length` turns are enough. -/
def mergeLoop (limit : ℕ) : ℕ → α → Bytes → Except DecodeError (α × Bytes)
  | 0, msg, buf => .ok (msg, buf)
  | fuel + 1, msg, buf =>
    if limit < buf.length then do
      let ((tag, wireType), buf) ← decodeKey buf
      let (msg, buf) ← mergeField msg tag wireType buf
      mergeLoop limit fuel msg buf
    else .ok (msg, buf)

/-- All fields of a buffer. -/
def mergeAll (msg : α) (buf : Bytes) : Except DecodeError α := do
  let (msg, _) ← mergeLoop mergeField 0 buf.length msg buf
  return msg

/-- The fields of a length-delimited message, without a look at where the last one ends. -/
def mergeLengthDelimited (underflow : DecodeError) (msg : α) (buf : Bytes) :
    Except DecodeError (α × Bytes) := do
  let (len, buf) ← decodeVarint buf
  if buf.length < len then throw underflow
  mergeLoop mergeField (buf.length - len) buf.length msg buf

/-- `encoding::message::merge`. -/
def message.merge (wireType : WireType) (msg : α) (buf : Bytes) : Except DecodeError (α × Bytes) := do
  checkWireType .lengthDelimited wireType
  let (len, buf) ← decodeVarint buf
  if buf.length < len then throw (.new .bufferUnderflow)
  let limit := buf.length - len
  let (msg, buf) ← mergeLoop mergeField limit buf.length msg buf
  if buf.length ≠ limit then throw (.new .delimitedLengthExceeded)
  return (msg, buf)

end

/-! ### What is written is read -/

theorem toNat_ofNat {n : ℕ} (hn : n < 256) : (UInt8.ofNat n).toNat = n := UInt8.toNat_ofNat_of_lt' hn

theorem decodeVarintAux_encode : ∀ {fuel n : ℕ} {rest : Bytes}, n < 2 * 128 ^ fuel →
    decodeVarintAux (fuel + 1) (encodeVarintAux (fuel + 1) n ++ rest) = some (n, rest) := by
  intro fuel
  induction fuel with
  | zero =>
    intro n rest hn
    rw [encodeVarintAux, if_pos (by omega), List.singleton_append, decodeVarintAux,
      toNat_ofNat (by omega), if_pos (by omega), if_neg (by omega)]
  | succ fuel ih =>
    intro n rest hn
    rw [encodeVarintAux]
    split
    · rename_i hlt
      rw [List.singleton_append, decodeVarintAux, toNat_ofNat (by omega), if_pos hlt,
        if_neg (by omega)]
    · rename_i hge
      -- the lower seven bits are this byte, the others the rest
      have hhigh : n / 128 < 2 * 128 ^ fuel := by
        rw [Nat.div_lt_iff_lt_mul (by decide), Nat.mul_assoc, ← pow_succ]
        exact hn
      rw [List.cons_append, decodeVarintAux, toNat_ofNat (by omega), if_neg (by omega), ih hhigh]
      simp only [Option.some.injEq, Prod.mk.injEq, and_true]
      omega

theorem decodeVarint_encode {n : ℕ} (hn : n < 2 ^ 64) (rest : Bytes) :
    decodeVarint (encodeVarint n ++ rest) = .ok (n, rest) := by
  unfold decodeVarint encodeVarint
  rw [decodeVarintAux_encode (hn.trans_eq (by decide))]

theorem encodeVarint_ne_nil (n : ℕ) : encodeVarint n ≠ [] := by
  unfold encodeVarint encodeVarintAux
  split <;> simp

theorem encodeKey_ne_nil (tag : ℕ) (wireType : WireType) : encodeKey tag wireType ≠ [] :=
  encodeVarint_ne_nil _

theorem WireType.tryFrom_toNat (wireType : WireType) : WireType.tryFrom wireType.toNat = some wireType := by
  cases wireType <;> rfl

theorem decodeKey_encode {tag : ℕ} (hpos : 0 < tag) (htag : tag < 2 ^ 29) (wireType : WireType)
    (rest : Bytes) : decodeKey (encodeKey tag wireType ++ rest) = .ok ((tag, wireType), rest) := by
  have hwire : wireType.toNat < 6 := by cases wireType <;> decide
  have hkey : tag * 8 + wireType.toNat < 2 ^ 32 := by omega
  have hmod : (tag * 8 + wireType.toNat) % 8 = wireType.toNat := by omega
  have hdiv : (tag * 8 + wireType.toNat) / 8 = tag := by omega
  unfold decodeKey encodeKey
  rw [decodeVarint_encode (by omega)]
  simp only [bind, Except.bind, if_neg (Nat.not_le_of_lt hkey), hmod, hdiv, WireType.tryFrom_toNat,
    if_neg hpos.ne']
  rfl

theorem splitDelimited_encode {value : Bytes} (hlen : value.length < 2 ^ 64) (rest : Bytes) :
    splitDelimited (encodeVarint value.length ++ value ++ rest) = .ok (value, rest) := by
  unfold splitDelimited
  rw [List.append_assoc, decodeVarint_encode hlen]
  simp only [bind, Except.bind, List.length_append, List.take_left, List.drop_left,
    if_neg (show ¬ value.length + rest.length < value.length by omega)]
  rfl

theorem uint64.merge_encode (value : UInt64) (rest : Bytes) :
    uint64.merge .varint (encodeVarint value.toNat ++ rest) = .ok (value, rest) := by
  unfold uint64.merge
  rw [decodeVarint_encode value.toNat_lt]
  simp [checkWireType, bind, Except.bind, pure, Except.pure]

theorem int64.merge_encode (value : Int64) (rest : Bytes) :
    int64.merge .varint (encodeVarint value.toUInt64.toNat ++ rest) = .ok (value, rest) := by
  unfold int64.merge
  rw [decodeVarint_encode (UInt64.toNat_lt _)]
  simp [checkWireType, bind, Except.bind, pure, Except.pure]

theorem int32.merge_encode (value : Int32) (rest : Bytes) :
    int32.merge .varint (encodeVarint value.toInt64.toUInt64.toNat ++ rest) = .ok (value, rest) := by
  unfold int32.merge
  rw [decodeVarint_encode (UInt64.toNat_lt _)]
  simp [checkWireType, bind, Except.bind, pure, Except.pure]

theorem bool.merge_encode (value : Bool) (rest : Bytes) :
    bool.merge .varint (encodeVarint (if value then (1 : UInt64) else 0).toNat ++ rest) =
      .ok (value, rest) := by
  unfold bool.merge
  rw [decodeVarint_encode (UInt64.toNat_lt _)]
  cases value <;> rfl

/-! ### The fields of a message -/

/-- The bytes `out`, with `rest` after them, take the message from `msg` to `msg'`, if they fit into
memory. -/
def Reads {α : Type} (mergeField : α → ℕ → WireType → Bytes → Except DecodeError (α × Bytes))
    (out rest : Bytes) (msg msg' : α) : Prop :=
  (out ++ rest).length < 2 ^ 64 → ∀ limit fuel, limit ≤ rest.length → (out ++ rest).length ≤ fuel →
    ∃ fuel', rest.length ≤ fuel' ∧
      mergeLoop mergeField limit fuel msg (out ++ rest) = mergeLoop mergeField limit fuel' msg' rest

namespace Reads

variable {α : Type} {mergeField : α → ℕ → WireType → Bytes → Except DecodeError (α × Bytes)}
  {out out' rest value : Bytes} {msg msg₁ msg' : α} {tag : ℕ} {wireType : WireType}

theorem nil : Reads mergeField [] rest msg msg := fun _ _ fuel _ hfuel => ⟨fuel, hfuel, rfl⟩

theorem append (h : Reads mergeField out (out' ++ rest) msg msg₁)
    (h' : Reads mergeField out' rest msg₁ msg') : Reads mergeField (out ++ out') rest msg msg' := by
  intro hlen limit fuel hlimit hfuel
  rw [List.append_assoc] at hlen hfuel ⊢
  have hlen' : (out' ++ rest).length < 2 ^ 64 := by
    rw [List.length_append] at hlen
    omega
  obtain ⟨fuel₁, hfuel₁, heq₁⟩ := h hlen limit fuel (by rw [List.length_append]; omega) hfuel
  obtain ⟨fuel₂, hfuel₂, heq₂⟩ := h' hlen' limit fuel₁ hlimit hfuel₁
  exact ⟨fuel₂, hfuel₂, heq₁.trans heq₂⟩

/-- One field, from what is done with its bytes. -/
theorem field (hpos : 0 < tag) (htag : tag < 2 ^ 29)
    (h : (out ++ rest).length < 2 ^ 64 → mergeField msg tag wireType (out ++ rest) = .ok (msg', rest)) :
    Reads mergeField (encodeKey tag wireType ++ out) rest msg msg' := by
  intro hlen limit fuel hlimit hfuel
  have hkey := List.length_pos_iff.mpr (encodeKey_ne_nil tag wireType)
  rw [List.append_assoc] at hlen hfuel ⊢
  rw [List.length_append] at hlen hfuel
  obtain ⟨fuel, rfl⟩ : ∃ f, fuel = f + 1 := ⟨fuel - 1, by omega⟩
  have hlimit' : limit < (encodeKey tag wireType ++ (out ++ rest)).length := by
    rw [List.length_append, List.length_append]
    omega
  refine ⟨fuel, ?_, ?_⟩
  · rw [List.length_append] at hfuel
    omega
  · rw [mergeLoop, if_pos hlimit', decodeKey_encode hpos htag]
    simp only [bind, Except.bind, h (by omega)]

/-- A length-delimited field. -/
theorem bytes (hpos : 0 < tag) (htag : tag < 2 ^ 29)
    (h : (value ++ rest).length < 2 ^ 64 → mergeField msg tag .lengthDelimited
      (encodeVarint value.length ++ value ++ rest) = .ok (msg', rest)) :
    Reads mergeField (bytesEncode tag value) rest msg msg' := by
  rw [bytesEncode, List.append_assoc]
  refine field hpos htag fun hlen => h ?_
  rw [List.append_assoc, List.length_append] at hlen
  omega

/-- A field that is left out when it is the default. -/
theorem plain {β : Type*} [DecidableEq β] {enc : ℕ → β → Bytes} {default value : β} (set : β → α → α)
    (hdefault : set default msg = msg)
    (h : value ≠ default → Reads mergeField (enc tag value) rest msg (set value msg)) :
    Reads mergeField (Protobuf.plain enc default tag value) rest msg (set value msg) := by
  unfold Protobuf.plain
  split
  · rename_i heq
    rw [heq, hdefault]
    exact nil
  · rename_i hne
    exact h hne

theorem optional {β : Type*} {enc : ℕ → β → Bytes} {value : Option β} (set : Option β → α → α)
    (hnone : set none msg = msg)
    (h : ∀ v, value = some v → Reads mergeField (enc tag v) rest msg (set (some v) msg)) :
    Reads mergeField (Protobuf.optional enc tag value) rest msg (set value msg) := by
  cases value with
  | none =>
    rw [hnone]
    exact nil
  | some v => exact h v rfl

/-- The elements of a repeated field, one after the other. -/
theorem repeated {β : Type*} {enc : ℕ → β → Bytes} {f : α → β → α} :
    ∀ {values : List β} {msg : α},
      (∀ v ∈ values, ∀ msg rest, Reads mergeField (enc tag v) rest msg (f msg v)) →
      Reads mergeField (Protobuf.repeated enc tag values) rest msg (values.foldl f msg)
  | [], _, _ => nil
  | v :: values, msg, h => by
    rw [Protobuf.repeated, List.flatMap_cons, List.foldl_cons]
    exact (h v List.mem_cons_self msg _).append
      (repeated fun w hw => h w (List.mem_cons_of_mem v hw))

/-! ### All fields -/

/-- All fields are read, and what comes after them is left. -/
theorem mergeLoop_eq (h : Reads mergeField out rest msg msg') (hlen : (out ++ rest).length < 2 ^ 64)
    {limit fuel : ℕ} (hlimit : limit = rest.length) (hfuel : (out ++ rest).length ≤ fuel) :
    mergeLoop mergeField limit fuel msg (out ++ rest) = .ok (msg', rest) := by
  obtain ⟨fuel', -, heq⟩ := h hlen limit fuel hlimit.le hfuel
  rw [heq]
  cases fuel' with
  | zero => rfl
  | succ fuel' => rw [mergeLoop, if_neg (by omega)]

theorem mergeAll_eq (h : Reads mergeField out [] msg msg') (hlen : out.length < 2 ^ 64) :
    mergeAll mergeField msg out = .ok msg' := by
  have heq := h.mergeLoop_eq (by rwa [List.append_nil]) List.length_nil.symm le_rfl
  rw [List.append_nil] at heq
  unfold mergeAll
  rw [heq]
  rfl

theorem limit_eq (out rest : Bytes) : (out ++ rest).length - out.length = rest.length := by
  rw [List.length_append, Nat.add_sub_cancel_left]

theorem mergeLengthDelimited_eq {underflow : DecodeError} (h : Reads mergeField out rest msg msg')
    (hlen : (out ++ rest).length < 2 ^ 64) :
    mergeLengthDelimited mergeField underflow msg (encodeVarint out.length ++ out ++ rest) =
      .ok (msg', rest) := by
  have hle : out.length ≤ (out ++ rest).length := by
    rw [List.length_append]
    omega
  unfold mergeLengthDelimited
  rw [List.append_assoc, decodeVarint_encode (hle.trans_lt hlen)]
  simp only [bind, Except.bind, if_neg (Nat.not_lt_of_le hle), limit_eq]
  exact h.mergeLoop_eq hlen rfl le_rfl

theorem message_merge_eq (h : Reads mergeField out rest msg msg') (hlen : (out ++ rest).length < 2 ^ 64) :
    message.merge mergeField .lengthDelimited msg (encodeVarint out.length ++ out ++ rest) =
      .ok (msg', rest) := by
  have hle : out.length ≤ (out ++ rest).length := by
    rw [List.length_append]
    omega
  unfold message.merge
  rw [List.append_assoc, decodeVarint_encode (hle.trans_lt hlen)]
  simp only [bind, Except.bind, checkWireType, if_true, if_neg (Nat.not_lt_of_le hle), limit_eq,
    h.mergeLoop_eq hlen rfl le_rfl, ne_eq, not_true, if_false]
  rfl

/-! ### Fields of a message that is written by prost -/

/-- A number that replaces the one of the message. -/
theorem uint64 (set : UInt64 → α → α) (value : UInt64) (hpos : 0 < tag) (htag : tag < 2 ^ 29)
    (hdefault : set 0 msg = msg)
    (hmerge : ∀ buf buf', uint64.merge .varint buf = .ok (value, buf') →
      mergeField msg tag .varint buf = .ok (set value msg, buf')) :
    Reads mergeField (Protobuf.plain uint64.encode 0 tag value) rest msg (set value msg) := by
  exact plain set hdefault fun _ => field hpos htag fun _ => hmerge _ _ (uint64.merge_encode value rest)

theorem int64 (set : Int64 → α → α) (value : Int64) (hpos : 0 < tag) (htag : tag < 2 ^ 29)
    (hdefault : set 0 msg = msg)
    (hmerge : ∀ buf buf', int64.merge .varint buf = .ok (value, buf') →
      mergeField msg tag .varint buf = .ok (set value msg, buf')) :
    Reads mergeField (Protobuf.plain int64.encode 0 tag value) rest msg (set value msg) := by
  exact plain set hdefault fun _ => field hpos htag fun _ => hmerge _ _ (int64.merge_encode value rest)

theorem int32 (set : Int32 → α → α) (value : Int32) (hpos : 0 < tag) (htag : tag < 2 ^ 29)
    (hdefault : set 0 msg = msg)
    (hmerge : ∀ buf buf', int32.merge .varint buf = .ok (value, buf') →
      mergeField msg tag .varint buf = .ok (set value msg, buf')) :
    Reads mergeField (Protobuf.plain int32.encode 0 tag value) rest msg (set value msg) := by
  exact plain set hdefault fun _ => field hpos htag fun _ => hmerge _ _ (int32.merge_encode value rest)

theorem bool (set : Bool → α → α) (value : Bool) (hpos : 0 < tag) (htag : tag < 2 ^ 29)
    (hdefault : set false msg = msg)
    (hmerge : ∀ buf buf', bool.merge .varint buf = .ok (value, buf') →
      mergeField msg tag .varint buf = .ok (set value msg, buf')) :
    Reads mergeField (Protobuf.plain bool.encode false tag value) rest msg (set value msg) := by
  exact plain set hdefault fun _ => field hpos htag fun _ => hmerge _ _ (bool.merge_encode value rest)

theorem optional_uint64 (set : Option UInt64 → α → α) (value : Option UInt64) (hpos : 0 < tag)
    (htag : tag < 2 ^ 29) (hnone : set none msg = msg)
    (hmerge : ∀ v buf buf', uint64.merge .varint buf = .ok (v, buf') →
      mergeField msg tag .varint buf = .ok (set (some v) msg, buf')) :
    Reads mergeField (Protobuf.optional uint64.encode tag value) rest msg (set value msg) := by
  exact optional set hnone fun v _ => field hpos htag fun _ => hmerge v _ _ (uint64.merge_encode v rest)

end Reads

/-! ### Fields that are skipped -/

/-- The bytes are a field of the tag, which can be skipped. -/
def Skips (tag : ℕ) (out : Bytes) : Prop :=
  ∃ wireType body, out = encodeKey tag wireType ++ body ∧
    ∀ rest, (body ++ rest).length < 2 ^ 64 → skipField wireType tag (body ++ rest) = .ok rest

namespace Skips

variable {tag : ℕ}

theorem varint (value : UInt64) : Skips tag (varintEncode tag value) := by
  refine ⟨.varint, encodeVarint value.toNat, rfl, fun rest _ => ?_⟩
  unfold skipField recursionLimit skipFieldAux
  simp only [decodeVarint_encode value.toNat_lt, bind, Except.bind]
  rfl

theorem uint64 (value : UInt64) : Skips tag (uint64.encode tag value) := varint value

theorem bool (value : Bool) : Skips tag (bool.encode tag value) := varint _

theorem advance_append (value rest : Bytes) : advance value.length (value ++ rest) = .ok rest := by
  unfold advance
  rw [if_neg (by rw [List.length_append]; omega), List.drop_left]

theorem bytes (value : Bytes) : Skips tag (bytesEncode tag value) := by
  refine ⟨.lengthDelimited, encodeVarint value.length ++ value, List.append_assoc .., fun rest hlen => ?_⟩
  rw [List.append_assoc, List.length_append, List.length_append] at hlen
  unfold skipField recursionLimit skipFieldAux
  simp only [List.append_assoc, decodeVarint_encode (show value.length < 2 ^ 64 by omega), bind,
    Except.bind, advance_append]

theorem string (value : String) : Skips tag (string.encode tag value) := bytes (utf8 value)

theorem length_flatMap_encodeVarint (values : List UInt64) :
    (values.flatMap fun value => encodeVarint value.toNat).length =
      (values.map fun value => encodedLenVarint value.toNat).sum := by
  induction values with
  | nil => rfl
  | cons v values ih =>
    rw [List.flatMap_cons, List.length_append, ih, length_encodeVarint v.toNat_lt, List.map_cons, List.sum_cons]

/-- Numbers in one field are a length-delimited field. -/
theorem encodePacked_eq {values : List UInt64} (h : values ≠ []) :
    uint64.encodePacked tag values = bytesEncode tag (values.flatMap fun value => encodeVarint value.toNat) := by
  unfold uint64.encodePacked bytesEncode
  rw [if_neg (by simpa using h), length_flatMap_encodeVarint]

/-- A nested message whose size is the one of its bytes. -/
theorem message {α : Type*} (encodeRaw : α → Bytes) (msg : α) :
    Skips tag (@message.encode α (.ofEncodeRaw encodeRaw) tag msg) := bytes (encodeRaw msg)

section

variable {α β : Type} {mergeField : α → ℕ → WireType → Bytes → Except DecodeError (α × Bytes)}
  {out rest : Bytes} {msg : α} {enc : ℕ → β → Bytes}

theorem reads (h : Skips tag out) (hpos : 0 < tag) (htag : tag < 2 ^ 29)
    (hskip : ∀ wireType buf, mergeField msg tag wireType buf =
      (skipField wireType tag buf).map fun buf => (msg, buf)) :
    Reads mergeField out rest msg msg := by
  obtain ⟨wireType, body, rfl, hbody⟩ := h
  refine .field hpos htag fun hlen => ?_
  rw [hskip, hbody rest hlen]
  rfl

theorem plain [DecidableEq β] {default : β} (h : ∀ v, Skips tag (enc tag v)) (hpos : 0 < tag)
    (htag : tag < 2 ^ 29) (value : β) (hskip : ∀ wireType buf, mergeField msg tag wireType buf =
      (skipField wireType tag buf).map fun buf => (msg, buf)) :
    Reads mergeField (Protobuf.plain enc default tag value) rest msg msg :=
  .plain (fun _ msg => msg) rfl fun _ => (h value).reads hpos htag hskip

theorem optional (h : ∀ v, Skips tag (enc tag v)) (hpos : 0 < tag) (htag : tag < 2 ^ 29)
    (value : Option β) (hskip : ∀ wireType buf, mergeField msg tag wireType buf =
      (skipField wireType tag buf).map fun buf => (msg, buf)) :
    Reads mergeField (Protobuf.optional enc tag value) rest msg msg :=
  .optional (fun _ msg => msg) rfl fun v _ => (h v).reads hpos htag hskip

theorem packed (hpos : 0 < tag) (htag : tag < 2 ^ 29) (values : List UInt64)
    (hskip : ∀ wireType buf, mergeField msg tag wireType buf =
      (skipField wireType tag buf).map fun buf => (msg, buf)) :
    Reads mergeField (uint64.encodePacked tag values) rest msg msg := by
  by_cases h : values = []
  · subst h
    exact .nil
  · rw [encodePacked_eq h]
    exact (bytes _).reads hpos htag hskip

theorem repeated (h : ∀ v, Skips tag (enc tag v)) (hpos : 0 < tag) (htag : tag < 2 ^ 29) (values : List β)
    (hskip : ∀ msg wireType buf, mergeField msg tag wireType buf =
      (skipField wireType tag buf).map fun buf => (msg, buf)) :
    Reads mergeField (Protobuf.repeated enc tag values) rest msg msg := by
  have hid : values.foldl (fun (msg : α) _ => msg) msg = msg := by
    induction values with
    | nil => rfl
    | cons v values ih => exact ih
  have hreads : Reads mergeField (Protobuf.repeated enc tag values) rest msg
      (values.foldl (fun msg _ => msg) msg) :=
    .repeated fun v _ msg _ => (h v).reads hpos htag (hskip msg)
  rwa [hid] at hreads

end

end Skips

/-! ### Where a part of a buffer stands -/

def StandsAt (buffer : Bytes) (offset : ℕ) (part : Bytes) : Prop :=
  ∃ pre post, buffer = pre ++ (part ++ post) ∧ pre.length = offset

namespace StandsAt

variable {buffer inner part post : Bytes} {offset offset' : ℕ}

/-- What is followed by `post` up to the end. -/
theorem of_suffix (h : part ++ post <:+ buffer) :
    StandsAt buffer (buffer.length - (part ++ post).length) part := by
  obtain ⟨pre, rfl⟩ := h
  refine ⟨pre, post, rfl, ?_⟩
  rw [List.length_append]
  omega

theorem trans (h : StandsAt buffer offset inner) (h' : StandsAt inner offset' part) :
    StandsAt buffer (offset' + offset) part := by
  obtain ⟨pre, post, rfl, rfl⟩ := h
  obtain ⟨pre', post', rfl, rfl⟩ := h'
  exact ⟨pre ++ pre', post' ++ post, by simp only [List.append_assoc], by rw [List.length_append]; omega⟩

theorem drop_eq (h : StandsAt buffer offset part) : ∃ post, buffer.drop offset = part ++ post := by
  obtain ⟨pre, post, rfl, rfl⟩ := h
  exact ⟨post, List.drop_left ..⟩

theorem take_drop (h : StandsAt buffer offset part) : (buffer.drop offset).take part.length = part := by
  obtain ⟨post, heq⟩ := h.drop_eq
  rw [heq, List.take_left]

theorem decodeVarint_eq {n : ℕ} (h : StandsAt buffer offset (encodeVarint n)) (hn : n < 2 ^ 64) :
    ∃ post, decodeVarint (buffer.drop offset) = .ok (n, post) := by
  obtain ⟨post, heq⟩ := h.drop_eq
  exact ⟨post, by rw [heq, decodeVarint_encode hn]⟩

end StandsAt

end Richat.Lib.Protobuf
