import Mathlib.Order.Basic
import Mathlib.Tactic.Order

/-!
# Binary search

`partitionPoint` is the loop of a binary search over positions: the first position of an interval at
which a predicate does not hold. `partitionPoint_spec` is its rule, for a predicate that never holds
again once it fails.
-/

namespace Richat.Lib

/-- The loop `while low < high`, for at most as many turns as the first argument. -/
def partitionPoint (p : ℕ → Bool) : ℕ → ℕ → ℕ → ℕ
  | 0, low, _ => low
  | fuel + 1, low, high =>
    if low < high then
      let mid := low + (high - low) / 2
      if p mid then partitionPoint p fuel (mid + 1) high else partitionPoint p fuel low mid
    else low

theorem partitionPoint_spec {p : ℕ → Bool} : ∀ (fuel low high : ℕ),
    (∀ i j, low ≤ i → i ≤ j → j < high → p j → p i) → low ≤ high → high - low ≤ fuel →
    (low ≤ partitionPoint p fuel low high ∧ partitionPoint p fuel low high ≤ high) ∧
      (∀ i, low ≤ i → i < partitionPoint p fuel low high → p i) ∧
      ∀ i, partitionPoint p fuel low high ≤ i → i < high → p i = false := by
  intro fuel
  induction fuel with
  | zero =>
    intro low high _ hle hfuel
    have heq : low = high := by omega
    subst heq
    simp only [partitionPoint]
    exact ⟨⟨le_rfl, le_rfl⟩, fun i h₁ h₂ => by omega, fun i h₁ h₂ => by omega⟩
  | succ fuel ih =>
    intro low high hmono hle hfuel
    unfold partitionPoint
    by_cases hlt : low < high
    · simp only [if_pos hlt]
      have hmid : low ≤ low + (high - low) / 2 ∧ low + (high - low) / 2 < high := by omega
      cases hp : p (low + (high - low) / 2) with
      | true =>
        obtain ⟨⟨h₁, h₂⟩, hbelow, habove⟩ := ih (low + (high - low) / 2 + 1) high
          (fun i j hi hij hj => hmono i j (by omega) hij hj) (by omega) (by omega)
        simp only [if_true]
        refine ⟨⟨by omega, h₂⟩, fun i hi hlt => ?_, habove⟩
        by_cases hi' : i ≤ low + (high - low) / 2
        · exact hmono i _ hi hi' hmid.2 hp
        · apply hbelow i (by omega) hlt
      | false =>
        obtain ⟨⟨h₁, h₂⟩, hbelow, habove⟩ := ih low (low + (high - low) / 2)
          (fun i j hi hij hj => hmono i j hi hij (by omega)) (by omega) (by omega)
        simp only [Bool.false_eq_true, if_false]
        refine ⟨⟨h₁, by omega⟩, hbelow, fun i hi hlt => ?_⟩
        by_cases hi' : i < low + (high - low) / 2
        · apply habove i hi hi'
        · -- above the middle it cannot hold again
          cases hpi : p i with
          | false => rfl
          | true => rw [← hp, hmono _ i (by omega) (by omega) hlt hpi]
    · simp only [if_neg hlt]
      exact ⟨⟨le_rfl, hle⟩, fun i h₁ h₂ => by omega, fun i h₁ h₂ => by omega⟩

end Richat.Lib
