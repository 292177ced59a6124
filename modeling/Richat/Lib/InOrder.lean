import Richat.Lib.SortedMap
import Mathlib.Tactic

/-!
# Delivery in order

Numbered items go through a stage that may change their order, and a buffer of what has arrived puts
them back: the taker waits for the number `next`. `InOrder` says where the items are that were not
taken; `InOrder.take` is the point of it, the item taken is the one produced with this number.
-/

namespace Richat.Lib

variable {α : Type*} {produced l : List α} {transit : List (ℕ × α)} {arrived : SortedMap ℕ α}
  {next n : ℕ} {x : α}

/-- The items of a list with their numbers, from `n` on. -/
def number : ℕ → List α → List (ℕ × α)
  | _, [] => []
  | n, x :: l => (n, x) :: number (n + 1) l

@[simp] theorem number_nil : number n ([] : List α) = [] := rfl

@[simp] theorem number_cons : number n (x :: l) = (n, x) :: number (n + 1) l := rfl

theorem number_append (l l' : List α) : ∀ n,
    number n (l ++ l') = number n l ++ number (n + l.length) l' := by
  induction l with
  | nil => simp
  | cons x l ih =>
    intro n
    simp only [List.cons_append, number_cons, ih, List.length_cons]
    rw [show n + 1 + l.length = n + (l.length + 1) by omega]

theorem map_snd_number (l : List α) : ∀ n, (number n l).map Prod.snd = l := by
  induction l with
  | nil => simp
  | cons x l ih => simp [ih]

@[simp] theorem length_number (l : List α) (n : ℕ) : (number n l).length = l.length := by
  rw [← List.length_map, map_snd_number]

theorem getElem?_number (l : List α) : ∀ n k, (number n l)[k]? = l[k]?.map (Prod.mk (n + k)) := by
  induction l with
  | nil => simp
  | cons x l ih =>
    intro n k
    cases k with
    | zero => simp
    | succ k => simp [ih, show n + 1 + k = n + (k + 1) by omega]

/-- One of the parts of a list has an item more than before. -/
theorem flatMap_perm_cons {κ β : Type*} {f g : κ → List β} {y : β} {j : κ} :
    ∀ {ks : List κ}, ks.Nodup → j ∈ ks → (f j).Perm (y :: g j) → (∀ i, i ≠ j → f i = g i) →
      (ks.flatMap f).Perm (y :: ks.flatMap g)
  | [], _, hj, _, _ => absurd hj List.not_mem_nil
  | k :: ks, hnodup, hj, hcons, hne => by
    obtain ⟨hk, hks⟩ := List.nodup_cons.mp hnodup
    rw [List.flatMap_cons, List.flatMap_cons]
    by_cases hkj : k = j
    · subst hkj
      have hsame : ks.flatMap f = ks.flatMap g :=
        List.flatMap_congr fun i hi => hne i (ne_of_mem_of_not_mem hi hk)
      rw [hsame]
      exact hcons.append_right _
    · have hj' := (List.mem_cons.mp hj).resolve_left (Ne.symm hkj)
      rw [hne k hkj]
      exact ((flatMap_perm_cons hks hj' hcons hne).append_left (g k)).trans List.perm_middle

/-- The items not taken yet, by their numbers: some are in transit and some have arrived. -/
structure InOrder (produced : List α) (transit : List (ℕ × α)) (arrived : SortedMap ℕ α)
    (next : ℕ) : Prop where
  le : next ≤ produced.length
  mem_transit : ∀ e ∈ transit, next ≤ e.1 ∧ produced[e.1]? = some e.2
  get?_arrived : ∀ n x, arrived.get? n = some x → next ≤ n ∧ produced[n]? = some x
  nodup : (transit.map Prod.fst).Nodup
  disjoint : ∀ e ∈ transit, arrived.get? e.1 = none

namespace InOrder

theorem nil : InOrder ([] : List α) [] .empty 0 where
  le := le_rfl
  mem_transit := by simp
  get?_arrived := by simp
  nodup := List.nodup_nil
  disjoint := by simp

theorem getElem?_snoc {y : α} (h : produced[n]? = some x) : (produced ++ [y])[n]? = some x := by
  obtain ⟨hlt, -⟩ := List.getElem?_eq_some_iff.mp h
  rwa [List.getElem?_append_left hlt]

theorem produce (h : InOrder produced transit arrived next) (x : α) :
    InOrder (produced ++ [x]) (transit ++ [(produced.length, x)]) arrived next where
  le := by
    have := h.le
    simp only [List.length_append, List.length_singleton]
    omega
  mem_transit := by
    intro e he
    rcases List.mem_append.mp he with he | he
    · obtain ⟨hle, hget⟩ := h.mem_transit e he
      exact ⟨hle, getElem?_snoc hget⟩
    · obtain rfl := List.mem_singleton.mp he
      exact ⟨h.le, by simp⟩
  get?_arrived := by
    intro n x' hx
    obtain ⟨hle, hget⟩ := h.get?_arrived n x' hx
    exact ⟨hle, getElem?_snoc hget⟩
  nodup := by
    rw [List.map_append]
    refine h.nodup.append (List.nodup_singleton _) ?_
    intro n hn hn'
    obtain rfl := List.mem_singleton.mp hn'
    obtain ⟨e, he, heq⟩ := List.mem_map.mp hn
    obtain ⟨hlt, -⟩ := List.getElem?_eq_some_iff.mp (h.mem_transit e he).2
    simp only at heq
    omega
  disjoint := by
    intro e he
    rcases List.mem_append.mp he with he | he
    · exact h.disjoint e he
    · obtain rfl := List.mem_singleton.mp he
      by_contra hne
      obtain ⟨x', hx⟩ := Option.ne_none_iff_exists'.mp hne
      obtain ⟨hlt, -⟩ := List.getElem?_eq_some_iff.mp (h.get?_arrived _ x' hx).2
      exact lt_irrefl _ hlt

/-- The items produced together. -/
theorem produceAll : ∀ {produced l : List α} {transit : List (ℕ × α)},
    InOrder produced transit arrived next →
    InOrder (produced ++ l) (transit ++ number produced.length l) arrived next
  | produced, [], transit, h => by simpa using h
  | produced, x :: l, transit, h => by
    have hx := (h.produce x).produceAll (l := l)
    simpa using hx

/-- An item arrives. -/
theorem arrive (h : InOrder produced transit arrived next) {i : ℕ} {e : ℕ × α}
    (he : transit[i]? = some e) :
    InOrder produced (transit.eraseIdx i) (arrived.insert e.1 e.2) next := by
  obtain ⟨hi, hget⟩ := List.getElem?_eq_some_iff.mp he
  have hmem : e ∈ transit := hget ▸ List.getElem_mem hi
  have hne : ∀ e' ∈ transit.eraseIdx i, e' ∈ transit ∧ e'.1 ≠ e.1 := by
    intro e' he'
    obtain ⟨k, hk, hlt, heq⟩ := List.mem_eraseIdx_iff_getElem.mp he'
    refine ⟨heq ▸ List.getElem_mem _, fun hfst => hlt ?_⟩
    have hk' : k < (transit.map Prod.fst).length := by simpa using hk
    have hi' : i < (transit.map Prod.fst).length := by simpa using hi
    have hsame : (transit.map Prod.fst)[k] = (transit.map Prod.fst)[i] := by
      simp only [List.getElem_map, heq, hget, hfst]
    exact (h.nodup.getElem_inj_iff).mp hsame
  refine ⟨h.le, fun e' he' => h.mem_transit e' (hne e' he').1, ?_, ?_, ?_⟩
  · intro n x hx
    rw [SortedMap.get?_insert] at hx
    split at hx
    · rename_i heq
      obtain rfl := Option.some.inj hx
      rw [heq]
      exact h.mem_transit e hmem
    · exact h.get?_arrived n x hx
  · exact h.nodup.sublist ((List.eraseIdx_sublist ..).map _)
  · intro e' he'
    obtain ⟨hmem', hfst⟩ := hne e' he'
    rw [SortedMap.get?_insert, if_neg hfst]
    exact h.disjoint e' hmem'

theorem perm {transit' : List (ℕ × α)} (h : InOrder produced transit arrived next)
    (hperm : transit.Perm transit') : InOrder produced transit' arrived next where
  le := h.le
  mem_transit e he := h.mem_transit e (hperm.mem_iff.mpr he)
  get?_arrived := h.get?_arrived
  nodup := (hperm.map Prod.fst).nodup h.nodup
  disjoint e he := h.disjoint e (hperm.mem_iff.mpr he)

/-- The next item is taken when it arrives. -/
theorem takeTransit (h : InOrder produced ((next, x) :: transit) arrived next) :
    produced[next]? = some x ∧ InOrder produced transit arrived (next + 1) := by
  obtain ⟨-, hget⟩ := h.mem_transit (next, x) List.mem_cons_self
  obtain ⟨hlt, -⟩ := List.getElem?_eq_some_iff.mp hget
  have hnodup := h.nodup
  rw [List.map_cons, List.nodup_cons] at hnodup
  refine ⟨hget, hlt, ?_, ?_, hnodup.2, fun e he => h.disjoint e (List.mem_cons_of_mem _ he)⟩
  · intro e he
    obtain ⟨hle, hget'⟩ := h.mem_transit e (List.mem_cons_of_mem _ he)
    have hne : e.1 ≠ next := fun heq => hnodup.1 (List.mem_map.mpr ⟨e, he, heq⟩)
    exact ⟨by omega, hget'⟩
  · intro n x' hx'
    obtain ⟨hle, hget'⟩ := h.get?_arrived n x' hx'
    have hne : n ≠ next := by
      rintro rfl
      rw [h.disjoint _ List.mem_cons_self] at hx'
      cases hx'
    exact ⟨by omega, hget'⟩

/-- **The next item.** -/
theorem take (h : InOrder produced transit arrived next) (hx : arrived.get? next = some x) :
    produced[next]? = some x ∧ InOrder produced transit (arrived.erase next) (next + 1) := by
  obtain ⟨-, hget⟩ := h.get?_arrived next x hx
  obtain ⟨hlt, -⟩ := List.getElem?_eq_some_iff.mp hget
  refine ⟨hget, hlt, ?_, ?_, h.nodup, ?_⟩
  · intro e he
    obtain ⟨hle, hget⟩ := h.mem_transit e he
    refine ⟨lt_of_le_of_ne hle fun heq => ?_, hget⟩
    have := h.disjoint e he
    rw [← heq, hx] at this
    cases this
  · intro n x' hx'
    rw [SortedMap.get?_erase] at hx'
    split at hx'
    · cases hx'
    · rename_i hne
      obtain ⟨hle, hget⟩ := h.get?_arrived n x' hx'
      exact ⟨lt_of_le_of_ne hle (Ne.symm hne), hget⟩
  · intro e he
    rw [SortedMap.get?_erase, h.disjoint e he, ite_self]

end InOrder

end Richat.Lib
