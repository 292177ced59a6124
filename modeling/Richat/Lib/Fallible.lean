import Mathlib.Data.List.Forall2
import Mathlib.Tactic.Common

/-!
# Computations that may fail

`Succeeds` says that a computation in `Except` has a result. It is followed through a program by the rule of each
construct: a bind, a condition, and the loops over a list.
-/

namespace Richat.Lib

variable {ε α β σ : Type}

def Succeeds (x : Except ε α) : Prop := ∃ a, x = .ok a

@[simp] theorem succeeds_ok (a : α) : Succeeds (.ok a : Except ε α) := ⟨a, rfl⟩

@[simp] theorem succeeds_pure (a : α) : Succeeds (pure a : Except ε α) := ⟨a, rfl⟩

@[simp] theorem not_succeeds_error (e : ε) : ¬ Succeeds (.error e : Except ε α) := by
  rintro ⟨a, h⟩
  cases h

@[simp] theorem not_succeeds_throw (e : ε) : ¬ Succeeds (throw e : Except ε α) := not_succeeds_error e

theorem bind_eq_ok {x : Except ε α} {f : α → Except ε β} {b : β} :
    x >>= f = .ok b ↔ ∃ a, x = .ok a ∧ f a = .ok b := by
  cases x with
  | error e => simp [bind, Except.bind]
  | ok a => simp [bind, Except.bind]

theorem map_eq_ok {x : Except ε α} {f : α → β} {b : β} :
    f <$> x = .ok b ↔ ∃ a, x = .ok a ∧ f a = b := by
  cases x with
  | error e => simp [Functor.map, Except.map]
  | ok a => simp [Functor.map, Except.map]

theorem succeeds_bind {x : Except ε α} {f : α → Except ε β} :
    Succeeds (x >>= f) ↔ ∃ a, x = .ok a ∧ Succeeds (f a) := by
  cases x with
  | error e => simp [bind, Except.bind]
  | ok a => simp [bind, Except.bind]

theorem succeeds_mapM {f : α → Except ε β} {xs : List α} :
    Succeeds (xs.mapM f) ↔ ∀ x ∈ xs, Succeeds (f x) := by
  induction xs with
  | nil => simp
  | cons x xs ih =>
    rw [List.mapM_cons, succeeds_bind, List.forall_mem_cons, ← ih]
    constructor
    · rintro ⟨y, hy, h⟩
      obtain ⟨ys, hys, -⟩ := succeeds_bind.mp h
      exact ⟨⟨y, hy⟩, ys, hys⟩
    · rintro ⟨⟨y, hy⟩, ys, hys⟩
      exact ⟨y, hy, succeeds_bind.mpr ⟨ys, hys, succeeds_pure _⟩⟩

/-- The results stand in the order of the items. -/
theorem mapM_eq_ok {f : α → Except ε β} {xs : List α} {ys : List β} :
    xs.mapM f = .ok ys ↔ List.Forall₂ (fun x y => f x = .ok y) xs ys := by
  induction xs generalizing ys with
  | nil =>
    rw [List.mapM_nil, List.forall₂_nil_left_iff]
    exact ⟨fun h => (Except.ok.inj h).symm, fun h => h ▸ rfl⟩
  | cons x xs ih =>
    rw [List.mapM_cons, bind_eq_ok]
    constructor
    · rintro ⟨y, hy, h⟩
      obtain ⟨rest, hrest, h⟩ := bind_eq_ok.mp h
      obtain rfl := Except.ok.inj h
      exact .cons hy (ih.mp hrest)
    · intro h
      cases h with
      | cons hy hrest => exact ⟨_, hy, bind_eq_ok.mpr ⟨_, ih.mpr hrest, rfl⟩⟩

/-- Two loops over items that belong together. -/
theorem mapM_forall₂ {α' γ : Type} {P : α → α' → Prop} {R : γ → β → Prop} {f : α' → Except ε β} {g : α → Except ε γ}
    {xs : List α} {xs' : List α'} {ys : List β} (hxs : List.Forall₂ P xs xs')
    (h : ∀ x x' y, P x x' → f x' = .ok y → ∃ z, g x = .ok z ∧ R z y) (hys : xs'.mapM f = .ok ys) :
    ∃ zs, xs.mapM g = .ok zs ∧ List.Forall₂ R zs ys := by
  induction hxs generalizing ys with
  | nil =>
    obtain rfl := Except.ok.inj hys
    exact ⟨[], rfl, .nil⟩
  | cons hx _ ih =>
    rw [List.mapM_cons] at hys
    obtain ⟨y, hy, hys⟩ := bind_eq_ok.mp hys
    obtain ⟨rest, hrest, hys⟩ := bind_eq_ok.mp hys
    obtain rfl := Except.ok.inj hys
    obtain ⟨z, hz, hR⟩ := h _ _ y hx hy
    obtain ⟨zs, hzs, hall⟩ := ih hrest
    refine ⟨z :: zs, ?_, .cons hR hall⟩
    rw [List.mapM_cons]
    exact bind_eq_ok.mpr ⟨z, hz, bind_eq_ok.mpr ⟨zs, hzs, rfl⟩⟩

/-- One of the loops gives a function of what the other gives. -/
theorem mapM_eq_map {α' γ : Type} {P : α → α' → Prop} {r : β → γ} {f : α' → Except ε β} {g : α → Except ε γ}
    {xs : List α} {xs' : List α'} {ys : List β} (hxs : List.Forall₂ P xs xs')
    (h : ∀ x x' y, P x x' → f x' = .ok y → g x = .ok (r y)) (hys : xs'.mapM f = .ok ys) :
    xs.mapM g = .ok (ys.map r) := by
  obtain ⟨zs, hzs, hall⟩ :=
    mapM_forall₂ (R := (· = r ·)) hxs (fun x x' y hP hy => ⟨_, h x x' y hP hy, rfl⟩) hys
  have heq := List.forall₂_map_right_iff.mpr hall
  rw [List.forall₂_eq_eq_eq] at heq
  exact heq ▸ hzs

/-- The results of two loops agree just if they agree for each item. -/
theorem mapM_map_eq_iff {γ : Type} {f : α → Except ε β} {g : α → Except ε γ} {r : γ → β} {p : α → Prop} {xs : List α}
    {ys : List β} {zs : List γ} (hzs : xs.mapM g = .ok zs) (hys : xs.mapM f = .ok ys)
    (h : ∀ x ∈ xs, ∀ y z, f x = .ok y → g x = .ok z → (r z = y ↔ p x)) : zs.map r = ys ↔ ∀ x ∈ xs, p x := by
  induction xs generalizing ys zs with
  | nil =>
    obtain rfl := Except.ok.inj hys
    obtain rfl := Except.ok.inj hzs
    simp
  | cons x xs ih =>
    rw [List.mapM_cons] at hys hzs
    obtain ⟨y, hy, hys⟩ := bind_eq_ok.mp hys
    obtain ⟨ys, hrest, hys⟩ := bind_eq_ok.mp hys
    obtain rfl := Except.ok.inj hys
    obtain ⟨z, hz, hzs⟩ := bind_eq_ok.mp hzs
    obtain ⟨zs, hrest', hzs⟩ := bind_eq_ok.mp hzs
    obtain rfl := Except.ok.inj hzs
    rw [List.map_cons, List.cons_eq_cons, List.forall_mem_cons]
    exact and_congr (h x List.mem_cons_self y z hy hz)
      (ih hrest' hrest fun x' hmem => h x' (List.mem_cons_of_mem x hmem))

/-- Every result is the one of an item. -/
theorem mem_of_mapM {f : α → Except ε β} {xs : List α} {ys : List β} (h : xs.mapM f = .ok ys) {y : β}
    (hy : y ∈ ys) : ∃ x ∈ xs, f x = .ok y := by
  have hall := mapM_eq_ok.mp h
  clear h
  induction hall with
  | nil => cases hy
  | cons hx _ ih =>
    rcases List.mem_cons.mp hy with rfl | hy
    · exact ⟨_, List.mem_cons_self, hx⟩
    · obtain ⟨x, hmem, hx⟩ := ih hy
      exact ⟨x, List.mem_cons_of_mem _ hmem, hx⟩

/-- A property of all items is one of all results. -/
theorem forall_mem_mapM {f : α → Except ε β} {xs : List α} {ys : List β} (h : xs.mapM f = .ok ys) {p : α → Prop}
    {q : β → Prop} (hpq : ∀ x y, x ∈ xs → f x = .ok y → (p x ↔ q y)) : (∀ x ∈ xs, p x) ↔ ∀ y ∈ ys, q y := by
  have hall := mapM_eq_ok.mp h
  clear h
  induction hall with
  | nil => simp
  | cons hx _ ih =>
    rw [List.forall_mem_cons, List.forall_mem_cons]
    exact and_congr (hpq _ _ List.mem_cons_self hx) (ih fun x y hmem => hpq x y (List.mem_cons_of_mem _ hmem))

theorem forM_eq_ok {f : α → Except ε Unit} {xs : List α} :
    xs.forM f = .ok () ↔ ∀ x ∈ xs, f x = .ok () := by
  induction xs with
  | nil => simp [List.forM, pure, Except.pure]
  | cons x xs ih =>
    rw [List.forM, bind_eq_ok, List.forall_mem_cons, ← ih]
    constructor
    · rintro ⟨_, hx, hxs⟩
      exact ⟨hx, hxs⟩
    · rintro ⟨hx, hxs⟩
      exact ⟨(), hx, hxs⟩

theorem succeeds_foldlM {f : σ → α → Except ε σ} {xs : List α} {s : σ}
    (h : ∀ s, ∀ x ∈ xs, Succeeds (f s x)) : Succeeds (xs.foldlM f s) := by
  induction xs generalizing s with
  | nil => exact succeeds_pure s
  | cons x xs ih =>
    obtain ⟨s', hs'⟩ := h s x List.mem_cons_self
    rw [List.foldlM_cons, succeeds_bind]
    exact ⟨s', hs', ih fun s y hy => h s y (List.mem_cons_of_mem x hy)⟩

/-! ### Two kinds of errors -/

section

variable {ε' : Type} {x : ExceptT ε (Except ε') α} {f : α → ExceptT ε (Except ε') β}

theorem bind_eq_ok_ok {b : β} : x >>= f = .ok (.ok b) ↔ ∃ a, x = .ok (.ok a) ∧ f a = .ok (.ok b) := by
  rcases x with e | e | a
  · constructor
    · intro h
      cases h
    · rintro ⟨a, h, -⟩
      cases h
  · constructor
    · intro h
      cases h
    · rintro ⟨a, h, -⟩
      cases h
  · exact ⟨fun h => ⟨a, rfl, h⟩, fun ⟨a', h, h'⟩ => by
      obtain rfl := Except.ok.inj (Except.ok.inj h)
      exact h'⟩

/-- The inner error does not occur, if it does in neither of both. -/
theorem succeeds_bind_run (hx : Succeeds x.run) (hf : ∀ a, Succeeds (f a).run) : Succeeds (x >>= f).run := by
  obtain ⟨r, hr⟩ := hx
  obtain rfl : x = .ok r := hr
  cases r with
  | error e => exact ⟨.error e, rfl⟩
  | ok a => exact hf a

theorem liftExcept_eq_ok_ok {r : Except ε α} {a : α} :
    (liftExcept r : ExceptT ε (Except ε') α) = .ok (.ok a) ↔ r = .ok a := by
  cases r with
  | error e =>
    constructor
    · intro h
      cases h
    · intro h
      cases h
  | ok a' =>
    constructor
    · intro h
      exact Except.ok.inj h
    · intro h
      obtain rfl := Except.ok.inj h
      rfl

theorem succeeds_liftExcept (r : Except ε α) : Succeeds (liftExcept r : ExceptT ε (Except ε') α).run := by
  cases r with
  | error e => exact ⟨.error e, rfl⟩
  | ok a => exact ⟨.ok a, rfl⟩

end

end Richat.Lib
