import Mathlib.Data.List.Basic
import Mathlib.Tactic

/-!
# Big-endian numbers

`toBe w n` is the number `n` in `w` bytes, the most significant first, `ofBe` the number of some bytes, and
`takeBe w` reads a number of `w` bytes off the front of a list.
-/

namespace Richat.Lib

/-- `to_be_bytes` of a number of `w` bytes. -/
def toBe : ℕ → ℕ → List UInt8
  | 0, _ => []
  | w + 1, n => UInt8.ofNat (n / 256 ^ w) :: toBe w n

/-- `from_be_bytes` -/
def ofBe (bytes : List UInt8) : ℕ := bytes.foldl (fun n b => n * 256 + b.toNat) 0

/-- A number off the front. -/
def takeBe (w : ℕ) (bytes : List UInt8) : Option (ℕ × List UInt8) :=
  if w ≤ bytes.length then some (ofBe (bytes.take w), bytes.drop w) else none

variable {w n m : ℕ}

@[simp] theorem length_toBe (w n : ℕ) : (toBe w n).length = w := by
  induction w with
  | zero => rfl
  | succ w ih => rw [toBe, List.length_cons, ih]

theorem foldl_toBe (w n acc : ℕ) :
    (toBe w n).foldl (fun n b => n * 256 + b.toNat) acc = acc * 256 ^ w + n % 256 ^ w := by
  induction w generalizing acc with
  | zero => simp [toBe, Nat.mod_one]
  | succ w ih =>
    rw [toBe, List.foldl_cons, ih, UInt8.toNat_ofNat']
    have hsplit : n % 256 ^ (w + 1) = n % 256 ^ w + 256 ^ w * (n / 256 ^ w % 256) := by
      rw [Nat.pow_succ, Nat.mod_mul]
    rw [hsplit, Nat.pow_succ]
    ring

theorem ofBe_toBe (h : n < 2 ^ (8 * w)) : ofBe (toBe w n) = n := by
  rw [Nat.pow_mul] at h
  rw [ofBe, foldl_toBe, Nat.mod_eq_of_lt h]
  omega

theorem toBe_inj (hn : n < 2 ^ (8 * w)) (hm : m < 2 ^ (8 * w)) (h : toBe w n = toBe w m) : n = m := by
  rw [← ofBe_toBe hn, h, ofBe_toBe hm]

theorem takeBe_append (h : n < 2 ^ (8 * w)) (rest : List UInt8) :
    takeBe w (toBe w n ++ rest) = some (n, rest) := by
  have hle : w ≤ (toBe w n ++ rest).length := by
    rw [List.length_append, length_toBe]
    omega
  rw [takeBe, if_pos hle, List.take_append_of_le_length (by simp), List.drop_append_of_le_length (by simp)]
  simp [List.take_of_length_le, List.drop_of_length_le, ofBe_toBe h]

theorem takeBe_toBe (h : n < 2 ^ (8 * w)) : takeBe w (toBe w n) = some (n, []) := by
  simpa using takeBe_append h []

end Richat.Lib
