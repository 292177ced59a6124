import Mathlib.Data.Nat.Log
import Mathlib.Tactic

/-!
# The wire format of protocol buffers

Numbers are written as varints: seven bits a byte, the lowest first, and the highest bit of a byte says
that another one follows. A key is a varint too, of a tag and a wire type, and a length-delimited field is
its key, its length and its bytes.

`encodedLenVarint` is the closed form that computes the size of a varint before it is written;
`length_encodeVarint` says that it is right for every 64-bit number.
-/

namespace Richat.Lib.Protobuf

abbrev Bytes := List UInt8

/-! ### Varints -/

/-- At most `fuel` bytes. -/
def encodeVarintAux : ℕ → ℕ → Bytes
  | 0, _ => []
  | fuel + 1, n =>
    if n < 128 then [UInt8.ofNat n]
    else UInt8.ofNat (n % 128 + 128) :: encodeVarintAux fuel (n / 128)

/-- A number below `2 ^ 64` takes ten bytes at most. -/
def encodeVarint (n : ℕ) : Bytes := encodeVarintAux 10 n

def encodedLenVarint (n : ℕ) : ℕ := (Nat.log2 (n ||| 1) * 9 + 73) / 64

theorem length_encodeVarintAux : ∀ {fuel n : ℕ}, n < 128 ^ fuel → 0 < fuel →
    (encodeVarintAux fuel n).length = Nat.log 128 n + 1
  | fuel + 1, n, hn, _ => by
    unfold encodeVarintAux
    split
    · rename_i hlt
      rw [List.length_singleton, Nat.log_of_lt hlt]
    · rename_i hge
      have hfuel : 0 < fuel := by
        by_contra hzero
        obtain rfl : fuel = 0 := by omega
        omega
      have hdiv : n / 128 < 128 ^ fuel := by
        rw [Nat.div_lt_iff_lt_mul (by decide), ← pow_succ]
        exact hn
      rw [List.length_cons, length_encodeVarintAux hdiv hfuel,
        Nat.log_of_one_lt_of_le (n := n) (by decide) (by omega)]

/-- The closed form counts the digits of base 128. -/
theorem encodedLenVarint_eq {n : ℕ} (hn : n < 2 ^ 64) : encodedLenVarint n = Nat.log 128 n + 1 := by
  have hlog : Nat.log2 (n ||| 1) = Nat.log 2 n := by
    rw [Nat.log2_eq_log_two]
    rcases Nat.eq_zero_or_pos n with rfl | hpos
    · rfl
    · refine Nat.log_eq_of_pow_le_of_lt_pow ?_ ?_
      · exact (Nat.pow_log_le_self 2 hpos.ne').trans Nat.left_le_or
      · refine Nat.or_lt_two_pow (Nat.lt_pow_succ_log_self (by decide) n) ?_
        exact Nat.one_lt_two_pow (Nat.succ_ne_zero _)
  have hbase : Nat.log 128 n = Nat.log 2 n / 7 := by
    rcases Nat.eq_zero_or_pos n with rfl | hpos
    · simp
    · refine Nat.log_eq_of_pow_le_of_lt_pow ?_ ?_
      · rw [show 128 = 2 ^ 7 from rfl, ← pow_mul]
        refine (Nat.pow_le_pow_right (by decide) ?_).trans (Nat.pow_log_le_self 2 hpos.ne')
        omega
      · rw [show 128 = 2 ^ 7 from rfl, ← pow_mul]
        refine (Nat.lt_pow_succ_log_self (by decide) n).trans_le (Nat.pow_le_pow_right (by decide) ?_)
        omega
  have hlt : Nat.log 2 n < 64 := Nat.log_lt_of_lt_pow' (by decide) hn
  unfold encodedLenVarint
  rw [hlog, hbase]
  omega

theorem length_encodeVarint {n : ℕ} (hn : n < 2 ^ 64) : (encodeVarint n).length = encodedLenVarint n := by
  rw [encodedLenVarint_eq hn]
  exact length_encodeVarintAux (hn.trans (by decide)) (by decide)

/-! ### Keys and length-delimited fields -/

inductive WireType where
  | varint | sixtyFourBit | lengthDelimited | startGroup | endGroup | thirtyTwoBit
  deriving DecidableEq

def WireType.toNat : WireType → ℕ
  | varint => 0
  | sixtyFourBit => 1
  | lengthDelimited => 2
  | startGroup => 3
  | endGroup => 4
  | thirtyTwoBit => 5

def encodeKey (tag : ℕ) (wireType : WireType) : Bytes := encodeVarint (tag * 8 + wireType.toNat)

def keyLen (tag : ℕ) : ℕ := encodedLenVarint (tag * 8)

theorem length_encodeKey {tag : ℕ} (htag : tag < 2 ^ 29) (wireType : WireType) :
    (encodeKey tag wireType).length = keyLen tag := by
  have hwire : wireType.toNat < 8 := by cases wireType <;> decide
  have hlog : Nat.log 128 (tag * 8 + wireType.toNat) = Nat.log 128 (tag * 8) := by
    -- the wire type does not reach the next digit
    rcases Nat.lt_or_ge (tag * 8) 128 with hlt | hge
    · rw [Nat.log_of_lt hlt, Nat.log_of_lt (by omega)]
    · rw [Nat.log_of_one_lt_of_le (by decide) hge, Nat.log_of_one_lt_of_le (by decide) (by omega),
        show (tag * 8 + wireType.toNat) / 128 = tag * 8 / 128 by omega]
  rw [encodeKey, length_encodeVarint (by omega), keyLen, encodedLenVarint_eq (by omega),
    encodedLenVarint_eq (by omega), hlog]

def bytesEncode (tag : ℕ) (value : Bytes) : Bytes :=
  encodeKey tag .lengthDelimited ++ encodeVarint value.length ++ value

def bytesEncodedLen (tag : ℕ) (value : Bytes) : ℕ :=
  keyLen tag + encodedLenVarint value.length + value.length

theorem length_bytesEncode {tag : ℕ} {value : Bytes} (htag : tag < 2 ^ 29)
    (hlen : value.length < 2 ^ 64) : (bytesEncode tag value).length = bytesEncodedLen tag value := by
  rw [bytesEncode, List.length_append, List.length_append, length_encodeKey htag,
    length_encodeVarint hlen, bytesEncodedLen]

/-! ### Scalar fields -/

/-- A number is a varint of its bits: a signed one is extended to 64 bits first. -/
def varintEncode (tag : ℕ) (value : UInt64) : Bytes := encodeKey tag .varint ++ encodeVarint value.toNat

def varintEncodedLen (tag : ℕ) (value : UInt64) : ℕ := keyLen tag + encodedLenVarint value.toNat

namespace uint64

def encode (tag : ℕ) (value : UInt64) : Bytes := varintEncode tag value
def encodedLen (tag : ℕ) (value : UInt64) : ℕ := varintEncodedLen tag value

/-- The numbers in one length-delimited field. -/
def encodePacked (tag : ℕ) (values : List UInt64) : Bytes :=
  if values.isEmpty then []
  else
    encodeKey tag .lengthDelimited ++
      encodeVarint (values.map fun value => encodedLenVarint value.toNat).sum ++
      values.flatMap fun value => encodeVarint value.toNat

def encodedLenPacked (tag : ℕ) (values : List UInt64) : ℕ :=
  if values.isEmpty then 0
  else
    let len := (values.map fun value => encodedLenVarint value.toNat).sum
    keyLen tag + encodedLenVarint len + len

end uint64

namespace uint32

def encode (tag : ℕ) (value : UInt32) : Bytes := varintEncode tag value.toUInt64
def encodedLen (tag : ℕ) (value : UInt32) : ℕ := varintEncodedLen tag value.toUInt64

end uint32

namespace int64

def encode (tag : ℕ) (value : Int64) : Bytes := varintEncode tag value.toUInt64
def encodedLen (tag : ℕ) (value : Int64) : ℕ := varintEncodedLen tag value.toUInt64

end int64

namespace int32

def encode (tag : ℕ) (value : Int32) : Bytes := varintEncode tag value.toInt64.toUInt64
def encodedLen (tag : ℕ) (value : Int32) : ℕ := varintEncodedLen tag value.toInt64.toUInt64

end int32

namespace bool

def encode (tag : ℕ) (value : Bool) : Bytes := varintEncode tag (if value then 1 else 0)
def encodedLen (tag : ℕ) (_ : Bool) : ℕ := keyLen tag + 1

end bool

namespace double

/-- Eight bytes, the lowest first. -/
def encode (tag : ℕ) (value : UInt64) : Bytes :=
  encodeKey tag .sixtyFourBit ++ (List.range 8).map fun i => UInt8.ofNat (value.toNat / 256 ^ i % 256)

def encodedLen (tag : ℕ) (_ : UInt64) : ℕ := keyLen tag + 8

/-- Equal to `0.0`: the bits without the sign are zero. -/
def isZero (value : UInt64) : Bool := value.toNat % 2 ^ 63 = 0

end double

/-- The bytes of a string. -/
def utf8 (value : String) : Bytes := value.toUTF8.data.toList

namespace string

def encode (tag : ℕ) (value : String) : Bytes := bytesEncode tag (utf8 value)
def encodedLen (tag : ℕ) (value : String) : ℕ := bytesEncodedLen tag (utf8 value)

def encodeRepeated (tag : ℕ) (values : List String) : Bytes := values.flatMap (encode tag)

def encodedLenRepeated (tag : ℕ) (values : List String) : ℕ :=
  keyLen tag * values.length +
    (values.map fun value => (utf8 value).length + encodedLenVarint (utf8 value).length).sum

end string

/-! ### Messages -/

/-- The part of a message that writes it: the size is computed before. -/
class WireMessage (α : Type*) where
  encodeRaw : α → Bytes
  encodedLen : α → ℕ

namespace message

variable {α : Type*} [WireMessage α]

def encode (tag : ℕ) (msg : α) : Bytes :=
  encodeKey tag .lengthDelimited ++ encodeVarint (WireMessage.encodedLen msg) ++ WireMessage.encodeRaw msg

def encodedLen (tag : ℕ) (msg : α) : ℕ :=
  keyLen tag + encodedLenVarint (WireMessage.encodedLen msg) + WireMessage.encodedLen msg

def encodeRepeated (tag : ℕ) (msgs : List α) : Bytes := msgs.flatMap (encode tag)

def encodedLenRepeated (tag : ℕ) (msgs : List α) : ℕ :=
  keyLen tag * msgs.length +
    (msgs.map fun msg => WireMessage.encodedLen msg + encodedLenVarint (WireMessage.encodedLen msg)).sum

end message

/-- A message whose size is the one of its bytes. -/
@[reducible] def WireMessage.ofEncodeRaw {α : Type*} (encodeRaw : α → Bytes) : WireMessage α :=
  ⟨encodeRaw, fun msg => (encodeRaw msg).length⟩

/-! ### What a generated message writes for a field -/

/-- A scalar that is not optional is left out when it is the default. -/
def plain {α : Type*} [DecidableEq α] (encode : ℕ → α → Bytes) (default : α) (tag : ℕ) (value : α) :
    Bytes :=
  if value = default then [] else encode tag value

/-- A field that may be absent. -/
def optional {α : Type*} (encode : ℕ → α → Bytes) (tag : ℕ) (value : Option α) : Bytes :=
  value.elim [] (encode tag)

/-- Every element has the key. -/
def repeated {α : Type*} (encode : ℕ → α → Bytes) (tag : ℕ) (values : List α) : Bytes :=
  values.flatMap (encode tag)

/-! ### Two writers of the same message -/

/-- A writer with its length pass writes what is expected, if one of both fits into memory. -/
def Writes (out : Bytes) (len : ℕ) (expected : Bytes) : Prop :=
  out.length < 2 ^ 64 ∨ expected.length < 2 ^ 64 → out = expected ∧ len = expected.length

namespace Writes

variable {out out' expected expected' value : Bytes} {len len' tag : ℕ}

theorem nil : Writes [] 0 [] := fun _ => ⟨rfl, rfl⟩

theorem append (h : Writes out len expected) (h' : Writes out' len' expected') :
    Writes (out ++ out') (len + len') (expected ++ expected') := by
  intro hlt
  rw [List.length_append, List.length_append] at hlt
  obtain ⟨rfl, rfl⟩ := h (by omega)
  obtain ⟨rfl, rfl⟩ := h' (by omega)
  exact ⟨rfl, (List.length_append ..).symm⟩

/-- A part of the writer for two fields. -/
theorem append_pair {expected₁ expected₂ : Bytes} (h : Writes out len expected)
    (h' : Writes out' len' (expected₁ ++ expected₂)) :
    Writes (out ++ out') (len + len') (expected ++ expected₁ ++ expected₂) := by
  rw [List.append_assoc]
  exact h.append h'

/-- A field that is left out by both. -/
theorem append_nil (h : Writes out len expected) : Writes out len (expected ++ []) := by
  rwa [List.append_nil]

/-- A field that is left out on the condition of the writer. -/
theorem ite {p q : Prop} [Decidable p] [Decidable q] (hpq : p ↔ ¬ q) (h : p → Writes out len expected) :
    Writes (if p then out else []) (if p then len else 0) (if q then [] else expected) := by
  by_cases hp : p
  · rw [if_pos hp, if_pos hp, if_neg (hpq.mp hp)]
    exact h hp
  · rw [if_neg hp, if_neg hp, if_pos (not_not.mp fun hq => hp (hpq.mpr hq))]
    exact nil

theorem elim {α : Type*} {o : Option α} {f g : α → Bytes} {l : α → ℕ}
    (h : ∀ a, o = some a → Writes (f a) (l a) (g a)) :
    Writes (o.elim [] f) (o.elim 0 l) (o.elim [] g) := by
  cases o with
  | none => exact nil
  | some a => exact h a rfl

theorem varint (htag : tag < 2 ^ 29) (value : UInt64) :
    Writes (varintEncode tag value) (varintEncodedLen tag value) (varintEncode tag value) := by
  intro _
  refine ⟨rfl, ?_⟩
  rw [varintEncode, List.length_append, length_encodeKey htag, length_encodeVarint value.toNat_lt]
  rfl

theorem bool (htag : tag < 2 ^ 29) (value : Bool) :
    Writes (bool.encode tag value) (bool.encodedLen tag value) (bool.encode tag value) := by
  intro h
  obtain ⟨-, hlen⟩ := varint htag (if value then 1 else 0) h
  refine ⟨rfl, ?_⟩
  rw [bool.encode, ← hlen]
  cases value <;> rfl

theorem double (htag : tag < 2 ^ 29) (value : UInt64) :
    Writes (double.encode tag value) (double.encodedLen tag value) (double.encode tag value) := by
  intro _
  refine ⟨rfl, ?_⟩
  rw [double.encode, List.length_append, length_encodeKey htag, List.length_map, List.length_range]
  rfl

theorem bytes (htag : tag < 2 ^ 29) (value : Bytes) :
    Writes (bytesEncode tag value) (bytesEncodedLen tag value) (bytesEncode tag value) := by
  intro hlt
  refine ⟨rfl, (length_bytesEncode htag ?_).symm⟩
  rw [or_self, bytesEncode, List.length_append] at hlt
  omega

theorem flatMap {α β : Type*} {f : α → Bytes} {l : α → ℕ} {g : β → Bytes} {c : α → β} :
    ∀ {xs : List α}, (∀ x ∈ xs, Writes (f x) (l x) (g (c x))) →
      Writes (xs.flatMap f) (xs.map l).sum ((xs.map c).flatMap g)
  | [], _ => nil
  | x :: xs, h => by
    rw [List.flatMap_cons, List.map_cons, List.sum_cons, List.map_cons, List.flatMap_cons]
    exact (h x List.mem_cons_self).append (flatMap fun y hy => h y (List.mem_cons_of_mem x hy))

/-- A sum of sizes with the sizes of the keys counted apart. -/
theorem sum_key {α : Type*} (k : ℕ) (l : α → ℕ) (xs : List α) :
    k * xs.length + (xs.map l).sum = (xs.map fun x => k + l x).sum := by
  induction xs with
  | nil => rfl
  | cons x xs ih =>
    rw [List.map_cons, List.sum_cons, List.map_cons, List.sum_cons, List.length_cons, ← ih]
    ring

/-- A field of a fixed size. -/
theorem flatMap_const {α β : Type*} {f : α → Bytes} {k : ℕ} {g : β → Bytes} {c : α → β} {xs : List α}
    (h : ∀ x ∈ xs, Writes (f x) k (g (c x))) :
    Writes (xs.flatMap f) (k * xs.length) ((xs.map c).flatMap g) := by
  have hsum : (xs.map fun _ => k).sum = k * xs.length := by
    rw [List.map_const', List.sum_replicate, smul_eq_mul, Nat.mul_comm]
  rw [← hsum]
  exact flatMap h

theorem string (htag : tag < 2 ^ 29) (value : String) :
    Writes (string.encode tag value) (string.encodedLen tag value) (string.encode tag value) :=
  bytes htag _

theorem stringRepeated (htag : tag < 2 ^ 29) (values : List String) :
    Writes (string.encodeRepeated tag values) (string.encodedLenRepeated tag values)
      (repeated string.encode tag values) := by
  have h : Writes (values.flatMap (string.encode tag))
      (values.map fun value => string.encodedLen tag value).sum
      ((values.map id).flatMap (string.encode tag)) := flatMap fun value _ => string htag value
  rw [List.map_id] at h
  have hlen : string.encodedLenRepeated tag values = (values.map (string.encodedLen tag)).sum := by
    rw [string.encodedLenRepeated, sum_key]
    refine congrArg List.sum (List.map_congr_left fun value _ => ?_)
    rw [string.encodedLen, bytesEncodedLen]
    omega
  rw [hlen]
  exact h

theorem packed (htag : tag < 2 ^ 29) (values : List UInt64) :
    Writes (uint64.encodePacked tag values) (uint64.encodedLenPacked tag values)
      (uint64.encodePacked tag values) := by
  have hlen : (values.flatMap fun value => encodeVarint value.toNat).length =
      (values.map fun value => encodedLenVarint value.toNat).sum := by
    rw [List.length_flatMap]
    exact congrArg List.sum (List.map_congr_left fun value _ => length_encodeVarint value.toNat_lt)
  intro hlt
  refine ⟨rfl, ?_⟩
  unfold uint64.encodePacked uint64.encodedLenPacked at *
  split
  · rfl
  · rename_i hne
    rw [or_self, if_neg hne, List.length_append, hlen] at hlt
    rw [List.length_append, List.length_append, length_encodeKey htag, hlen,
      length_encodeVarint (by omega)]

/-- The size of a generated message is the one of its bytes. -/
theorem ofEncodeRaw (out : Bytes) : Writes out out.length out := fun _ => ⟨rfl, rfl⟩

variable {α β : Type*} [WireMessage α] [WireMessage β] {msg : α} {msg' : β}

/-- The length prefix of a nested message is right. -/
theorem message (htag : tag < 2 ^ 29)
    (hraw : Writes (WireMessage.encodeRaw msg) (WireMessage.encodedLen msg) (WireMessage.encodeRaw msg'))
    (hlen : WireMessage.encodedLen msg' = (WireMessage.encodeRaw msg').length) :
    Writes (message.encode tag msg) (message.encodedLen tag msg) (message.encode tag msg') := by
  intro hlt
  unfold message.encode message.encodedLen at *
  simp only [List.length_append] at hlt
  obtain ⟨hout, hsize⟩ := hraw (by omega)
  rw [hout] at hlt ⊢
  rw [hsize, hlen]
  refine ⟨rfl, ?_⟩
  rw [List.length_append, List.length_append, length_encodeKey htag, length_encodeVarint (by omega)]

theorem messageRepeated (htag : tag < 2 ^ 29) {convert : α → β} {msgs : List α}
    (hraw : ∀ msg ∈ msgs, Writes (WireMessage.encodeRaw msg) (WireMessage.encodedLen msg)
      (WireMessage.encodeRaw (convert msg)))
    (hlen : ∀ msg' : β, WireMessage.encodedLen msg' = (WireMessage.encodeRaw msg').length) :
    Writes (message.encodeRepeated tag msgs) (message.encodedLenRepeated tag msgs)
      (repeated message.encode tag (msgs.map convert)) := by
  have h : Writes (msgs.flatMap (message.encode tag)) (msgs.map (message.encodedLen tag)).sum
      ((msgs.map convert).flatMap (message.encode tag)) :=
    flatMap fun msg hmsg => message htag (hraw msg hmsg) (hlen _)
  have hsum : message.encodedLenRepeated tag msgs = (msgs.map (message.encodedLen tag)).sum := by
    rw [message.encodedLenRepeated, sum_key]
    refine congrArg List.sum (List.map_congr_left fun msg _ => ?_)
    rw [message.encodedLen]
    omega
  rw [hsum]
  exact h

/-! ### Fields -/

section Fields

variable {α : Type*} [DecidableEq α] {enc : ℕ → α → Bytes} {default val : α}

theorem plain {p : Prop} [Decidable p] (hp : p ↔ val ≠ default) (h : Writes out len (enc tag val)) :
    Writes (if p then out else []) (if p then len else 0) (Protobuf.plain enc default tag val) :=
  ite hp fun _ => h

theorem plain_of_ne (hne : val ≠ default) (h : Writes out len (enc tag val)) :
    Writes out len (Protobuf.plain enc default tag val) := by
  rwa [Protobuf.plain, if_neg hne]

theorem plain_uint64 (htag : tag < 2 ^ 29) (val : UInt64) :
    Writes (if val ≠ 0 then uint64.encode tag val else [])
      (if val ≠ 0 then uint64.encodedLen tag val else 0) (Protobuf.plain uint64.encode 0 tag val) :=
  plain Iff.rfl (varint htag _)

theorem plain_uint32 (htag : tag < 2 ^ 29) (val : UInt32) :
    Writes (if val ≠ 0 then uint32.encode tag val else [])
      (if val ≠ 0 then uint32.encodedLen tag val else 0) (Protobuf.plain uint32.encode 0 tag val) :=
  plain Iff.rfl (varint htag _)

theorem plain_int64 (htag : tag < 2 ^ 29) (val : Int64) :
    Writes (if val ≠ 0 then int64.encode tag val else [])
      (if val ≠ 0 then int64.encodedLen tag val else 0) (Protobuf.plain int64.encode 0 tag val) :=
  plain Iff.rfl (varint htag _)

theorem plain_bool (htag : tag < 2 ^ 29) (val : Bool) :
    Writes (if val then bool.encode tag val else [])
      (if val then bool.encodedLen tag val else 0) (Protobuf.plain bool.encode false tag val) :=
  plain (by simp) (bool htag _)

theorem plain_string (htag : tag < 2 ^ 29) (val : String) :
    Writes (if val ≠ "" then string.encode tag val else [])
      (if val ≠ "" then string.encodedLen tag val else 0) (Protobuf.plain string.encode "" tag val) :=
  plain Iff.rfl (string htag _)

theorem plain_bytes (htag : tag < 2 ^ 29) (val : Bytes) :
    Writes (if ¬ val.isEmpty then bytesEncode tag val else [])
      (if ¬ val.isEmpty then bytesEncodedLen tag val else 0) (Protobuf.plain bytesEncode [] tag val) :=
  plain (by simp) (bytes htag _)

end Fields

theorem optional {α β : Type*} {o : Option α} {f : α → Bytes} {l : α → ℕ} {c : α → β}
    {enc : ℕ → β → Bytes} (h : ∀ a, o = some a → Writes (f a) (l a) (enc tag (c a))) :
    Writes (o.elim [] f) (o.elim 0 l) (Protobuf.optional enc tag (o.map c)) := by
  cases o with
  | none => exact nil
  | some a => exact h a rfl

theorem optional_self {α : Type*} (o : Option α) {l : α → ℕ} {enc : ℕ → α → Bytes}
    (h : ∀ a, Writes (enc tag a) (l a) (enc tag a)) :
    Writes (o.elim [] (enc tag)) (o.elim 0 l) (Protobuf.optional enc tag o) :=
  elim fun a _ => h a

end Writes

end Richat.Lib.Protobuf
