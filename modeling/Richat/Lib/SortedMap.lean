import Mathlib.Data.List.Sigma
import Mathlib.Order.Defs.Unbundled
import Mathlib.Tactic

/-!
# Ordered maps as sorted entry lists

A map over a linearly ordered key type, given by the list of its entries in increasing key order.
The order is a field of the map, so every operation has to keep it and no later proof asks for it.
Lookup and removal are Mathlib's `List.dlookup` and `List.kerase`.

Two loops over the smallest keys come up wherever such a map is used as a window:

* `popWhile p`: remove the first entry as long as its key satisfies `p`;
* `popExcess n`: remove the first entry as long as there are more than `n` entries.

`get?_popWhile` and `get?_popExcess` say what they leave.
-/

set_option linter.unusedSectionVars false

namespace Richat.Lib

/-- Optional keys are ordered with `none` before every `some`. -/
instance Option.instIsStrictTotalOrder {α : Type*} [LT α] [IsStrictTotalOrder α (· < ·)] :
    IsStrictTotalOrder (Option α) (· < ·) where
  irrefl
    | none => id
    | some x => irrefl_of (· < ·) x
  trans
    | none, none, _ => fun _ h => h
    | none, some _, none => fun _ h => h
    | none, some _, some _ => fun _ _ => trivial
    | some _, none, _ => fun h _ => h.elim
    | some _, some _, none => fun _ h => h.elim
    | some x, some y, some z => fun h h' => trans_of (· < ·) (show x < y from h) (show y < z from h')
  trichotomous
    | none, none => fun _ _ => rfl
    | none, some _ => fun h _ => absurd trivial h
    | some _, none => fun _ h => absurd trivial h
    | some x, some y => fun h h' => congrArg some
        ((trichotomous_of (· < ·) x y).resolve_left h |>.resolve_right h')

instance Option.instDecidableLT {α : Type*} [LT α] [DecidableLT α] : DecidableLT (Option α) :=
  inferInstanceAs (DecidableRel (Option.lt (· < ·)))

/-- An ordered map: the entries in increasing key order. -/
structure SortedMap (κ υ : Type*) [LT κ] where
  entries : List (Σ _ : κ, υ)
  sorted : entries.Pairwise fun a b => a.1 < b.1

namespace SortedMap

section Defs

variable {κ υ : Type*} [LT κ]

/-- The empty map. -/
def empty : SortedMap κ υ := ⟨[], List.Pairwise.nil⟩

def keys (m : SortedMap κ υ) : List κ := m.entries.keys
def values (m : SortedMap κ υ) : List υ := m.entries.map Sigma.snd
def size (m : SortedMap κ υ) : ℕ := m.entries.length
def firstKey? (m : SortedMap κ υ) : Option κ := m.entries.head?.map Sigma.fst
def lastKey? (m : SortedMap κ υ) : Option κ := m.entries.getLast?.map Sigma.fst

/-- Removes the first entry as long as its key satisfies `p`. -/
def popWhile (p : κ → Bool) (m : SortedMap κ υ) : SortedMap κ υ :=
  ⟨m.entries.dropWhile fun e => p e.1, m.sorted.sublist (List.dropWhile_sublist _)⟩

/-- Removes the first entry as long as there are more than `n` entries. -/
def popExcess (n : ℕ) (m : SortedMap κ υ) : SortedMap κ υ :=
  ⟨m.entries.drop (m.size - n), m.sorted.sublist (List.drop_sublist _ _)⟩

/-- The keys that `popExcess n` removes, in order. -/
def excess (n : ℕ) (m : SortedMap κ υ) : List κ := (m.entries.take (m.size - n)).keys

variable [DecidableEq κ]

def get? (m : SortedMap κ υ) (k : κ) : Option υ := m.entries.dlookup k

/-- Whether the map has an entry for the key. -/
def contains (m : SortedMap κ υ) (k : κ) : Bool := (m.get? k).isSome

def erase (m : SortedMap κ υ) (k : κ) : SortedMap κ υ :=
  ⟨m.entries.kerase k, m.sorted.sublist (List.kerase_sublist _ _)⟩

variable [DecidableLT κ]

/-- Insertion into a sorted entry list; an entry of the same key is replaced. -/
def insertList (k : κ) (v : υ) : List (Σ _ : κ, υ) → List (Σ _ : κ, υ)
  | [] => [⟨k, v⟩]
  | e :: l => if k < e.1 then ⟨k, v⟩ :: e :: l
      else if k = e.1 then ⟨k, v⟩ :: l
      else e :: insertList k v l

/-- The number of keys above `k`. -/
def above (m : SortedMap κ υ) (k : κ) : ℕ := m.keys.countP fun j => k < j

end Defs

variable {κ υ : Type*} [LT κ] [DecidableEq κ] [DecidableLT κ] [IsStrictTotalOrder κ (· < ·)]

theorem mem_insertList {k : κ} {v : υ} {e : Σ _ : κ, υ} {l : List (Σ _ : κ, υ)}
    (h : e ∈ insertList k v l) : e = ⟨k, v⟩ ∨ e ∈ l := by
  induction l with
  | nil => simpa [insertList] using h
  | cons a l ih =>
    unfold insertList at h
    split at h
    · simpa using h
    · split at h
      · rcases List.mem_cons.mp h with h | h
        · exact Or.inl h
        · exact Or.inr (List.mem_cons_of_mem _ h)
      · rcases List.mem_cons.mp h with h | h
        · exact Or.inr (h ▸ List.mem_cons_self ..)
        · exact (ih h).imp_right (List.mem_cons_of_mem _)

theorem insertList_sorted (k : κ) (v : υ) {l : List (Σ _ : κ, υ)}
    (h : l.Pairwise fun a b => a.1 < b.1) : (insertList k v l).Pairwise fun a b => a.1 < b.1 := by
  induction l with
  | nil => simp [insertList]
  | cons a l ih =>
    obtain ⟨ha, hl⟩ := List.pairwise_cons.mp h
    unfold insertList
    split
    · rename_i hk
      refine List.pairwise_cons.mpr ⟨fun b hb => ?_, h⟩
      rcases List.mem_cons.mp hb with rfl | hb
      · exact hk
      · exact trans_of (· < ·) hk (ha b hb)
    · split
      · rename_i hk
        subst hk
        exact List.pairwise_cons.mpr ⟨ha, hl⟩
      · rename_i hlt hne
        refine List.pairwise_cons.mpr ⟨fun b hb => ?_, ih hl⟩
        rcases mem_insertList hb with rfl | hb
        · rcases trichotomous_of (· < ·) k a.1 with h' | h' | h'
          · exact absurd h' hlt
          · exact absurd h' hne
          · exact h'
        · exact ha b hb

/-- Adds an entry, in place of the one of the same key. -/
def insert (m : SortedMap κ υ) (k : κ) (v : υ) : SortedMap κ υ :=
  ⟨insertList k v m.entries, insertList_sorted k v m.sorted⟩

theorem nodupKeys (m : SortedMap κ υ) : m.entries.NodupKeys := by
  refine List.nodupKeys_iff_pairwise.mpr (m.sorted.imp ?_)
  intro a b h
  exact ne_of_irrefl h

/-! ### Lookup -/

@[simp] theorem get?_empty (k : κ) : (empty : SortedMap κ υ).get? k = none := rfl

theorem mem_keys {m : SortedMap κ υ} {k : κ} : k ∈ m.keys ↔ (m.get? k).isSome :=
  List.dlookup_isSome.symm

theorem get?_eq_some {m : SortedMap κ υ} {k : κ} {v : υ} :
    m.get? k = some v ↔ (⟨k, v⟩ : Σ _ : κ, υ) ∈ m.entries :=
  List.mem_dlookup_iff m.nodupKeys

theorem get?_eq_none {m : SortedMap κ υ} {k : κ} : m.get? k = none ↔ k ∉ m.keys :=
  List.dlookup_eq_none

/-- A map is its lookups. -/
theorem ext_get? {m m' : SortedMap κ υ} (h : ∀ k, m.get? k = m'.get? k) : m = m' := by
  have hmem : ∀ e, e ∈ m.entries ↔ e ∈ m'.entries := by
    rintro ⟨k, v⟩
    rw [← get?_eq_some, ← get?_eq_some, h]
  have hperm : m.entries.Perm m'.entries :=
    (List.perm_ext_iff_of_nodup m.nodupKeys.nodup m'.nodupKeys.nodup).mpr hmem
  have heq := hperm.eq_of_pairwise (fun a b _ _ hab hba => absurd hba (asymm_of (· < ·) hab)) m.sorted m'.sorted
  cases m
  cases m'
  cases heq
  rfl

theorem mem_keys_of_get? {m : SortedMap κ υ} {k : κ} {v : υ} (h : m.get? k = some v) :
    k ∈ m.keys :=
  mem_keys.mpr (by rw [h]; rfl)

theorem dlookup_insertList (k j : κ) (v : υ) (l : List (Σ _ : κ, υ)) :
    (insertList k v l).dlookup j = if j = k then some v else l.dlookup j := by
  induction l with
  | nil =>
    by_cases h : j = k
    · subst h; simp [insertList]
    · simp [insertList, h, List.dlookup_cons_ne]
  | cons a l ih =>
    unfold insertList
    split
    · by_cases h : j = k
      · subst h; simp
      · rw [List.dlookup_cons_ne _ _ h, if_neg h]
    · split
      · rename_i hk
        by_cases h : j = k
        · subst h; simp
        · rw [List.dlookup_cons_ne _ _ h, List.dlookup_cons_ne _ _ (by rwa [← hk]), if_neg h]
      · rename_i hk
        by_cases h : j = a.1
        · have hjk : j ≠ k := fun e => hk (e ▸ h)
          obtain ⟨b, w⟩ := a
          obtain rfl : j = b := h
          rw [List.dlookup_cons_eq, List.dlookup_cons_eq, if_neg hjk]
        · rw [List.dlookup_cons_ne _ _ h, List.dlookup_cons_ne _ _ h, ih]

theorem get?_insert (m : SortedMap κ υ) (k j : κ) (v : υ) :
    (m.insert k v).get? j = if j = k then some v else m.get? j :=
  dlookup_insertList k j v m.entries

@[simp] theorem get?_insert_self (m : SortedMap κ υ) (k : κ) (v : υ) :
    (m.insert k v).get? k = some v := by
  rw [get?_insert, if_pos rfl]

theorem get?_insert_of_ne (m : SortedMap κ υ) {k j : κ} (v : υ) (h : j ≠ k) :
    (m.insert k v).get? j = m.get? j := by
  rw [get?_insert, if_neg h]

theorem get?_erase (m : SortedMap κ υ) (k j : κ) :
    (m.erase k).get? j = if j = k then none else m.get? j := by
  by_cases h : j = k
  · subst h
    rw [if_pos rfl]
    exact List.dlookup_kerase j m.nodupKeys
  · rw [if_neg h]
    exact List.dlookup_kerase_ne h

theorem mem_keys_insert {m : SortedMap κ υ} {k j : κ} {v : υ} :
    j ∈ (m.insert k v).keys ↔ j = k ∨ j ∈ m.keys := by
  rw [mem_keys, mem_keys, get?_insert]
  split <;> simp [*]

theorem contains_iff {m : SortedMap κ υ} {k : κ} : m.contains k ↔ k ∈ m.keys := mem_keys.symm

@[simp] theorem contains_empty (k : κ) : (empty : SortedMap κ υ).contains k = false := rfl

@[simp] theorem contains_insert (m : SortedMap κ υ) (k j : κ) (v : υ) :
    (m.insert k v).contains j = (decide (j = k) || m.contains j) := by
  unfold contains
  rw [get?_insert]
  by_cases h : j = k <;> simp [h]

@[simp] theorem contains_erase (m : SortedMap κ υ) (k j : κ) :
    (m.erase k).contains j = (!decide (j = k) && m.contains j) := by
  unfold contains
  rw [get?_erase]
  by_cases h : j = k <;> simp [h]

theorem keys_eq_nil {m : SortedMap κ υ} : m.keys = [] ↔ ∀ k, m.get? k = none := by
  rw [List.eq_nil_iff_forall_not_mem]
  exact forall_congr' fun k => get?_eq_none.symm

theorem eq_empty {m : SortedMap κ υ} (h : ∀ k, m.get? k = none) : m = empty := by
  obtain ⟨entries, sorted⟩ := m
  have hkeys := keys_eq_nil.mpr h
  cases entries with
  | nil => rfl
  | cons e l => cases hkeys

theorem nodup_keys (m : SortedMap κ υ) : m.keys.Nodup := m.nodupKeys

theorem count_keys (m : SortedMap κ υ) (k : κ) : m.keys.count k = if m.contains k then 1 else 0 := by
  split
  · rename_i h
    exact List.count_eq_one_of_mem m.nodup_keys (contains_iff.mp h)
  · rename_i h
    exact List.count_eq_zero_of_not_mem fun hk => h (contains_iff.mpr hk)

theorem size_eq_card (m : SortedMap κ υ) : m.size = m.keys.toFinset.card := by
  rw [List.toFinset_card_of_nodup m.nodup_keys, keys, List.keys, List.length_map]
  rfl

theorem size_insert (m : SortedMap κ υ) (k : κ) (v : υ) :
    (m.insert k v).size = if m.contains k then m.size else m.size + 1 := by
  have hkeys : (m.insert k v).keys.toFinset = Insert.insert k m.keys.toFinset := by
    ext j
    rw [List.mem_toFinset, mem_keys_insert, Finset.mem_insert, List.mem_toFinset]
  rw [size_eq_card, hkeys, Finset.card_insert_eq_ite, ← size_eq_card]
  simp only [List.mem_toFinset, contains_iff]

theorem keys_sorted (m : SortedMap κ υ) : m.keys.Pairwise (· < ·) :=
  List.pairwise_map.mpr m.sorted

theorem lastKey?_eq_none {m : SortedMap κ υ} : m.lastKey? = none ↔ m.keys = [] := by
  simp [lastKey?, keys, List.keys]

/-- The last key is the largest one. -/
theorem lastKey?_eq_some {m : SortedMap κ υ} {k : κ} (h : m.lastKey? = some k) :
    k ∈ m.keys ∧ ∀ j ∈ m.keys, j = k ∨ j < k := by
  have hlast : m.keys.getLast? = some k := by
    rw [← h]
    simp [lastKey?, keys, List.keys, List.getLast?_map]
  obtain ⟨l, hl⟩ := List.getLast?_eq_some_iff.mp hlast
  have hs := m.keys_sorted
  rw [hl] at hs ⊢
  refine ⟨by simp, fun j hj => ?_⟩
  rcases List.mem_append.mp hj with hj | hj
  · exact Or.inr ((List.pairwise_append.mp hs).2.2 j hj k (by simp))
  · exact Or.inl (List.mem_singleton.mp hj)

theorem firstKey?_eq_none {m : SortedMap κ υ} : m.firstKey? = none ↔ m.keys = [] := by
  simp [firstKey?, keys, List.keys]

/-- The first key is the smallest one. -/
theorem firstKey?_eq_some {m : SortedMap κ υ} {k : κ} (h : m.firstKey? = some k) :
    k ∈ m.keys ∧ ∀ j ∈ m.keys, j = k ∨ k < j := by
  have hhead : m.keys.head? = some k := by
    rw [← h]
    simp [firstKey?, keys, List.keys, List.head?_map]
  obtain ⟨l, hl⟩ := List.head?_eq_some_iff.mp hhead
  have hs := m.keys_sorted
  rw [hl] at hs ⊢
  refine ⟨by simp, fun j hj => ?_⟩
  rcases List.mem_cons.mp hj with hj | hj
  · exact Or.inl hj
  · exact Or.inr ((List.pairwise_cons.mp hs).1 j hj)

/-! ### Removing the smallest keys -/

theorem dlookup_dropWhile (p : κ → Bool) (hp : ∀ a b, a < b → p b → p a) (k : κ) :
    ∀ l : List (Σ _ : κ, υ), l.Pairwise (fun a b => a.1 < b.1) →
      (l.dropWhile fun e => p e.1).dlookup k = if p k then none else l.dlookup k
  | [], _ => by simp
  | a :: l, h => by
    obtain ⟨ha, hl⟩ := List.pairwise_cons.mp h
    by_cases hpa : p a.1
    · rw [List.dropWhile_cons_of_pos (by exact hpa), dlookup_dropWhile p hp k l hl]
      by_cases hk : k = a.1
      · rw [if_pos (hk ▸ hpa), if_pos (hk ▸ hpa)]
      · rw [List.dlookup_cons_ne _ _ hk]
    · rw [List.dropWhile_cons_of_neg (by exact hpa)]
      by_cases hpk : p k
      · -- a key that satisfies `p` would lie above the first one that does not
        rw [if_pos hpk, List.dlookup_eq_none]
        intro hmem
        rcases List.mem_cons.mp hmem with rfl | hmem
        · exact hpa hpk
        · obtain ⟨b, hb, rfl⟩ := List.mem_map.mp hmem
          exact hpa (hp _ _ (ha b hb) hpk)
      · rw [if_neg hpk]

theorem get?_popWhile (m : SortedMap κ υ) {p : κ → Bool} (hp : ∀ a b, a < b → p b → p a) (k : κ) :
    (m.popWhile p).get? k = if p k then none else m.get? k :=
  dlookup_dropWhile p hp k m.entries m.sorted

theorem entries_popExcess (m : SortedMap κ υ) (n : ℕ) :
    m.entries = m.entries.take (m.size - n) ++ (m.popExcess n).entries :=
  (List.take_append_drop _ _).symm

theorem keys_popExcess (m : SortedMap κ υ) (n : ℕ) :
    m.keys = m.excess n ++ (m.popExcess n).keys := by
  unfold keys excess
  rw [← List.keys_append, ← entries_popExcess]

theorem size_popExcess (m : SortedMap κ υ) (n : ℕ) : (m.popExcess n).size = min m.size n := by
  show (m.entries.drop (m.size - n)).length = _
  rw [List.length_drop]
  show m.size - (m.size - n) = _
  omega

/-- What `popExcess` removes lies below what it keeps. -/
theorem excess_lt {m : SortedMap κ υ} {n : ℕ} {j k : κ} (hj : j ∈ m.excess n)
    (hk : k ∈ (m.popExcess n).keys) : j < k := by
  have h := m.keys_sorted
  rw [keys_popExcess m n, List.pairwise_append] at h
  exact h.2.2 j hj k hk

theorem get?_popExcess (m : SortedMap κ υ) (n : ℕ) (k : κ) :
    (m.popExcess n).get? k = if k ∈ m.excess n then none else m.get? k := by
  split
  · rename_i h
    rw [get?_eq_none]
    exact fun hk => irrefl k (excess_lt h hk)
  · rename_i h
    unfold get?
    rw [entries_popExcess m n, List.dlookup_append, List.dlookup_eq_none.mpr h]
    simp

theorem mem_keys_of_mem_excess {m : SortedMap κ υ} {n : ℕ} {k : κ} (h : k ∈ m.excess n) :
    k ∈ m.keys := by
  rw [keys_popExcess m n]
  exact List.mem_append_left _ h

theorem popExcess_of_le {m : SortedMap κ υ} {n : ℕ} (h : m.size ≤ n) : m.popExcess n = m := by
  unfold popExcess
  simp [Nat.sub_eq_zero_of_le h]

theorem excess_of_le {m : SortedMap κ υ} {n : ℕ} (h : m.size ≤ n) : m.excess n = [] := by
  unfold excess
  simp [Nat.sub_eq_zero_of_le h, List.keys]

/-- A map with a single key has at most one entry. -/
theorem size_le_one {m : SortedMap κ υ} {k : κ} (h : ∀ j ∈ m.keys, j = k) : m.size ≤ 1 := by
  have hlen : m.keys.length = m.size := by simp [keys, List.keys, size]
  have hs := m.keys_sorted
  rw [← hlen]
  cases hkeys : m.keys with
  | nil => simp
  | cons a l =>
    cases l with
    | nil => simp
    | cons b l =>
      rw [hkeys] at hs h
      have hab : a < b := (List.pairwise_cons.mp hs).1 b (by simp)
      rw [h a (by simp), h b (by simp)] at hab
      exact absurd hab (irrefl k)

/-- The entries that `popExcess n` removes are those with at least `n` keys above them. -/
theorem mem_excess_iff {m : SortedMap κ υ} {n : ℕ} {k : κ} (hk : k ∈ m.keys) :
    k ∈ m.excess n ↔ n < m.size ∧ n ≤ m.above k := by
  have hlen : (m.excess n).length = m.size - n := by
    simp [excess, List.keys, size]
  have hs := m.keys_sorted
  have hsplit := keys_popExcess m n
  have hkeep : (m.popExcess n).keys.length = min m.size n := by
    rw [← size_popExcess]; simp [keys, List.keys, size]
  constructor
  · intro h
    have hpos : 0 < (m.excess n).length := List.length_pos_of_mem h
    refine ⟨by omega, ?_⟩
    unfold above
    rw [hsplit, List.countP_append]
    have hall : (m.popExcess n).keys.countP (fun j => decide (k < j)) =
        (m.popExcess n).keys.length :=
      List.countP_eq_length.mpr fun j hj => by simpa using excess_lt h hj
    omega
  · rintro ⟨hn, ha⟩
    by_contra hne
    have hk' : k ∈ (m.popExcess n).keys := by
      rw [hsplit, List.mem_append] at hk
      exact hk.resolve_left hne
    -- only keys that stay can lie above `k`, and `k` is one that does not
    have h0 : (m.excess n).countP (fun j => decide (k < j)) = 0 :=
      List.countP_eq_zero.mpr fun j hj => by
        have := excess_lt hj hk'
        simpa using fun h => asymm this h
    have h1 : (m.popExcess n).keys.countP (fun j => decide (k < j)) <
        (m.popExcess n).keys.length := by
      refine lt_of_le_of_ne List.countP_le_length fun h => ?_
      have := List.countP_eq_length.mp h k hk'
      exact irrefl k (by simpa using this)
    unfold above at ha
    rw [hsplit, List.countP_append, h0] at ha
    omega

/-- The number of keys above `k` grows with the keys. -/
theorem above_le_above {υ' : Type*} {m : SortedMap κ υ} {m' : SortedMap κ υ'} {k : κ}
    (h : ∀ j ∈ m.keys, k < j → j ∈ m'.keys) : m.above k ≤ m'.above k := by
  unfold above
  rw [List.countP_eq_length_filter, List.countP_eq_length_filter]
  have hnodup : (m.keys.filter fun j => decide (k < j)).Nodup :=
    (m.keys_sorted.imp fun {a b} hab => ne_of_irrefl hab).filter _
  refine (hnodup.subperm fun j hj => ?_).length_le
  rw [List.mem_filter, decide_eq_true_eq] at hj ⊢
  exact ⟨h j hj.1 hj.2, hj.2⟩

theorem above_lt_size {m : SortedMap κ υ} {k : κ} (hk : k ∈ m.keys) : m.above k < m.size := by
  have hlen : m.keys.length = m.size := by simp [keys, List.keys, size]
  rw [← hlen]
  refine lt_of_le_of_ne List.countP_le_length fun h => ?_
  have := List.countP_eq_length.mp h k hk
  exact irrefl k (by simpa using this)

end SortedMap

end Richat.Lib
