import Mathlib.Data.List.Basic
import Mathlib.Tactic

/-!
# Runs of a deterministic machine with outputs

A machine is a step function from a state and an input to a state and a list of outputs; a step may
fail. `run` feeds it a list of inputs and collects the outputs; a failed step ends the run.

`run_induction` is the rule every invariant of a machine goes through: what holds at the start and
is kept by each step holds after every run. The invariant may speak about the inputs fed and the
outputs collected so far. `AllSteps` restricts a run by a condition on the state before each step
and its input, and `run_induction_of` is the rule under such a condition. `run_induction₂` relates the
runs of two machines over the same items.
-/

namespace Richat.Lib

variable {σ ι ω ε : Type*}

/-- A step: the next state and the outputs, or a failure. -/
abbrev Step (σ ι ω ε : Type*) := σ → ι → Except ε (σ × List ω)

/-- The run of a machine over a list of inputs, with the outputs of all steps in order. -/
def run (step : Step σ ι ω ε) : σ → List ι → Except ε (σ × List ω)
  | s, [] => .ok (s, [])
  | s, i :: is =>
    match step s i with
    | .error e => .error e
    | .ok (s₁, o₁) =>
      match run step s₁ is with
      | .error e => .error e
      | .ok (s₂, o₂) => .ok (s₂, o₁ ++ o₂)

/-- A step that returns can be checked by evaluation, with a property of what it returns. -/
def returns (p : σ → List ω → Bool) : Except ε (σ × List ω) → Bool
  | .ok (s, out) => p s out
  | .error _ => false

theorem exists_of_returns {p : σ → List ω → Bool} {x : Except ε (σ × List ω)}
    (h : returns p x = true) : ∃ s out, x = .ok (s, out) ∧ p s out = true := by
  cases x with
  | error e => cases h
  | ok r => exact ⟨r.1, r.2, rfl, h⟩

theorem ok_of_toOption {α β : Type*} {x : Except α β} {y : β} (h : x.toOption = some y) : x = .ok y := by
  cases x with
  | error e => cases h
  | ok z =>
    cases h
    rfl

/-- Every step of the run from `s` starts in a state and with an input that satisfy `ok`. -/
def AllSteps (step : Step σ ι ω ε) (ok : σ → ι → Prop) : σ → List ι → Prop
  | _, [] => True
  | s, i :: is => ok s i ∧ ∀ s' out, step s i = .ok (s', out) → AllSteps step ok s' is

variable {step : Step σ ι ω ε} {ok : σ → ι → Prop} {s s' s₀ : σ} {is js : List ι} {i : ι}
  {tr out : List ω}

@[simp] theorem run_nil : run step s [] = .ok (s, []) := rfl

theorem run_cons_ok : run step s (i :: is) = .ok (s', tr) ↔
    ∃ s₁ o₁ o₂, step s i = .ok (s₁, o₁) ∧ run step s₁ is = .ok (s', o₂) ∧ tr = o₁ ++ o₂ := by
  constructor
  · intro h
    unfold run at h
    split at h
    · cases h
    · rename_i s₁ o₁ h₁
      split at h
      · cases h
      · rename_i s₂ o₂ h₂
        cases h
        exact ⟨s₁, o₁, o₂, h₁, h₂, rfl⟩
  · rintro ⟨s₁, o₁, o₂, h₁, h₂, rfl⟩
    simp only [run, h₁, h₂]

theorem run_append : ∀ {s : σ} {is js : List ι} {s' : σ} {tr : List ω},
    run step s (is ++ js) = .ok (s', tr) ↔
      ∃ s₁ o₁ o₂, run step s is = .ok (s₁, o₁) ∧ run step s₁ js = .ok (s', o₂) ∧ tr = o₁ ++ o₂
  | s, [], js, s', tr => by simp [Prod.ext_iff, eq_comm]
  | s, i :: is, js, s', tr => by
    rw [List.cons_append, run_cons_ok]
    constructor
    · rintro ⟨s₁, o₁, o, h₁, h, rfl⟩
      obtain ⟨s₂, o₂, o₃, h₂, h₃, rfl⟩ := run_append.mp h
      exact ⟨s₂, o₁ ++ o₂, o₃, run_cons_ok.mpr ⟨s₁, o₁, o₂, h₁, h₂, rfl⟩, h₃,
        (List.append_assoc ..).symm⟩
    · rintro ⟨s₂, o, o₃, h, h₃, rfl⟩
      obtain ⟨s₁, o₁, o₂, h₁, h₂, rfl⟩ := run_cons_ok.mp h
      exact ⟨s₁, o₁, o₂ ++ o₃, h₁, run_append.mpr ⟨s₂, o₂, o₃, h₂, h₃, rfl⟩,
        List.append_assoc ..⟩

theorem run_singleton : run step s [i] = .ok (s', tr) ↔ step s i = .ok (s', tr) := by
  rw [run_cons_ok]
  constructor
  · rintro ⟨s₁, o₁, o₂, h, h₂, rfl⟩
    simp only [run_nil, Except.ok.injEq, Prod.mk.injEq] at h₂
    obtain ⟨rfl, rfl⟩ := h₂
    rwa [List.append_nil]
  · intro h
    exact ⟨s', tr, [], h, rfl, (List.append_nil _).symm⟩

theorem run_snoc : run step s (is ++ [i]) = .ok (s', tr) ↔
    ∃ s₁ o₁ o₂, run step s is = .ok (s₁, o₁) ∧ step s₁ i = .ok (s', o₂) ∧ tr = o₁ ++ o₂ := by
  simp only [run_append, run_singleton]

theorem allSteps_append : ∀ {s : σ} {is js : List ι}, AllSteps step ok s (is ++ js) →
    AllSteps step ok s is ∧
      ∀ s' tr, run step s is = .ok (s', tr) → AllSteps step ok s' js
  | s, [], js, h => ⟨trivial, fun s' tr h' => by
      simp only [run_nil, Except.ok.injEq, Prod.mk.injEq] at h'
      exact h'.1 ▸ h⟩
  | s, i :: is, js, h => by
    obtain ⟨hok, h⟩ := h
    refine ⟨⟨hok, fun s₁ o₁ h₁ => (allSteps_append (h s₁ o₁ h₁)).1⟩, fun s' tr h' => ?_⟩
    obtain ⟨s₁, o₁, o₂, h₁, h₂, -⟩ := run_cons_ok.mp h'
    exact (allSteps_append (h s₁ o₁ h₁)).2 s' o₂ h₂

/-- **Invariants of runs, under a condition on the steps.** -/
theorem run_induction_of {P : List ι → σ → List ω → Prop}
    (nil : P [] s₀ [])
    (snoc : ∀ is s tr i s' out, run step s₀ is = .ok (s, tr) → P is s tr → ok s i →
      step s i = .ok (s', out) → P (is ++ [i]) s' (tr ++ out)) :
    ∀ {is s tr}, AllSteps step ok s₀ is → run step s₀ is = .ok (s, tr) → P is s tr := by
  intro is
  induction is using List.reverseRecOn with
  | nil =>
    intro s tr _ h
    simp only [run_nil, Except.ok.injEq, Prod.mk.injEq] at h
    obtain ⟨rfl, rfl⟩ := h
    exact nil
  | append_singleton is i ih =>
    intro s tr hall h
    obtain ⟨s₁, o₁, o₂, h₁, h₂, rfl⟩ := run_snoc.mp h
    obtain ⟨hall₁, hlast⟩ := allSteps_append hall
    exact snoc is s₁ o₁ i s o₂ h₁ (ih hall₁ h₁) (hlast s₁ o₁ h₁).1 h₂

/-- A condition on the steps of a run can be checked by evaluation. -/
def checkSteps (step : Step σ ι ω ε) (ok : σ → ι → Bool) : σ → List ι → Bool
  | _, [] => true
  | s, i :: is => ok s i && match step s i with
    | .ok (s', _) => checkSteps step ok s' is
    | .error _ => true

theorem allSteps_of_checkSteps {p : σ → ι → Bool} (hcheck : ∀ s i, p s i = true → ok s i) :
    ∀ {s : σ} {is : List ι}, checkSteps step p s is = true → AllSteps step ok s is
  | _, [], _ => trivial
  | s, i :: is, h => by
    unfold checkSteps at h
    obtain ⟨hi, his⟩ := Bool.and_eq_true_iff.mp h
    refine ⟨hcheck s i hi, ?_⟩
    intro s' out hstep
    rw [hstep] at his
    exact allSteps_of_checkSteps hcheck his

theorem allSteps_true : ∀ (s : σ) (is : List ι), AllSteps step (fun _ _ => True) s is
  | _, [] => trivial
  | _, _ :: is => ⟨trivial, fun s' _ _ => allSteps_true s' is⟩

/-- A condition on the steps of a run is one on the states before them. -/
theorem allSteps_of_forall : ∀ {s : σ} {is : List ι},
    (∀ js i rest s' tr, is = js ++ i :: rest → run step s js = .ok (s', tr) → ok s' i) →
      AllSteps step ok s is
  | _, [], _ => trivial
  | s, i :: is, h => by
    refine ⟨h [] i is s [] rfl rfl, fun s₁ o₁ h₁ => allSteps_of_forall ?_⟩
    rintro js j rest s' tr rfl hrun
    exact h (i :: js) j rest s' (o₁ ++ tr) rfl (run_cons_ok.mpr ⟨s₁, o₁, tr, h₁, hrun, rfl⟩)

/-- Every step of the run from `s₀` satisfies `ok`, which looks at the state before it and at the outputs so
far. -/
def AllAlong (step : Step σ ι ω ε) (ok : σ → List ω → ι → Prop) (s₀ : σ) (is : List ι) : Prop :=
  ∀ pre i post s tr, is = pre ++ i :: post → run step s₀ pre = .ok (s, tr) → ok s tr i

theorem AllAlong.of_append {ok : σ → List ω → ι → Prop} (h : AllAlong step ok s₀ (is ++ js)) :
    AllAlong step ok s₀ is := by
  rintro pre i post s tr rfl hrun
  exact h pre i (post ++ js) s tr (by rw [List.append_assoc, List.cons_append]) hrun

/-- **Invariants of runs, under a condition on the steps and what happened before.** -/
theorem run_induction_along {ok : σ → List ω → ι → Prop} {P : List ι → σ → List ω → Prop}
    (nil : P [] s₀ [])
    (snoc : ∀ is s tr i s' out, run step s₀ is = .ok (s, tr) → P is s tr → ok s tr i →
      step s i = .ok (s', out) → P (is ++ [i]) s' (tr ++ out)) :
    ∀ {is s tr}, AllAlong step ok s₀ is → run step s₀ is = .ok (s, tr) → P is s tr := by
  intro is
  induction is using List.reverseRecOn with
  | nil =>
    intro s tr _ h
    simp only [run_nil, Except.ok.injEq, Prod.mk.injEq] at h
    obtain ⟨rfl, rfl⟩ := h
    exact nil
  | append_singleton is i ih =>
    intro s tr hall h
    obtain ⟨s₁, o₁, o₂, h₁, h₂, rfl⟩ := run_snoc.mp h
    exact snoc is s₁ o₁ i s o₂ h₁ (ih hall.of_append h₁) (hall is i [] s₁ o₁ rfl h₁) h₂

/-- A machine whose steps do not fail under such a condition. -/
theorem exists_run_along {ok : σ → List ω → ι → Prop} {P : σ → List ω → Prop} (nil : P s₀ [])
    (snoc : ∀ s tr i, P s tr → ok s tr i → ∃ s' out, step s i = .ok (s', out) ∧ P s' (tr ++ out)) :
    ∀ {is : List ι}, AllAlong step ok s₀ is → ∃ s tr, run step s₀ is = .ok (s, tr) ∧ P s tr := by
  intro is
  induction is using List.reverseRecOn with
  | nil => exact fun _ => ⟨s₀, [], rfl, nil⟩
  | append_singleton is i ih =>
    intro hall
    obtain ⟨s, tr, hrun, hp⟩ := ih hall.of_append
    obtain ⟨s', out, hstep, hp'⟩ := snoc s tr i hp (hall is i [] s tr rfl hrun)
    exact ⟨s', tr ++ out, run_snoc.mpr ⟨s, tr, out, hrun, hstep, rfl⟩, hp'⟩

/-- Two such conditions that agree wherever an invariant holds, which they keep. -/
theorem allAlong_congr {ok ok' : σ → List ω → ι → Prop} {P : σ → List ω → Prop} (nil : P s₀ [])
    (hiff : ∀ s tr i, P s tr → (ok s tr i ↔ ok' s tr i))
    (snoc : ∀ s tr i s' out, P s tr → ok s tr i → step s i = .ok (s', out) → P s' (tr ++ out)) :
    AllAlong step ok s₀ is ↔ AllAlong step ok' s₀ is := by
  have hkept : ∀ ok'' : σ → List ω → ι → Prop, (∀ s tr i, P s tr → ok'' s tr i → ok s tr i) →
      ∀ pre s tr, AllAlong step ok'' s₀ pre → run step s₀ pre = .ok (s, tr) → P s tr := by
    intro ok'' hok pre s tr hall hrun
    exact run_induction_along (P := fun _ s tr => P s tr) nil
      (fun _ s tr i s' out _ hp hi hstep => snoc s tr i s' out hp (hok s tr i hp hi) hstep) hall hrun
  constructor
  · rintro h pre i post s tr rfl hrun
    exact (hiff s tr i (hkept ok (fun _ _ _ _ => id) pre s tr h.of_append hrun)).mp (h pre i post s tr rfl hrun)
  · rintro h pre i post s tr rfl hrun
    exact (hiff s tr i (hkept ok' (fun s tr i hp => (hiff s tr i hp).mpr) pre s tr h.of_append hrun)).mpr
      (h pre i post s tr rfl hrun)

/-- Such a condition can be checked by evaluation. -/
def checkAlong (step : Step σ ι ω ε) (ok : σ → List ω → ι → Bool) : σ → List ω → List ι → Bool
  | _, _, [] => true
  | s, tr, i :: is => ok s tr i && match step s i with
    | .ok (s', out) => checkAlong step ok s' (tr ++ out) is
    | .error _ => true

theorem allAlong_of_checkAlong {ok : σ → List ω → ι → Prop} {p : σ → List ω → ι → Bool}
    (hcheck : ∀ s tr i, p s tr i = true → ok s tr i) (h : checkAlong step p s₀ [] is = true) :
    AllAlong step ok s₀ is := by
  have hgen : ∀ (pre : List ι) i post s tr s' tr', checkAlong step p s tr (pre ++ i :: post) = true →
      run step s pre = .ok (s', tr') → ok s' (tr ++ tr') i := by
    intro pre
    induction pre with
    | nil =>
      intro i post s tr s' tr' hp hrun
      simp only [run_nil, Except.ok.injEq, Prod.mk.injEq] at hrun
      obtain ⟨rfl, rfl⟩ := hrun
      rw [List.append_nil]
      unfold checkAlong at hp
      exact hcheck _ _ _ (Bool.and_eq_true_iff.mp hp).1
    | cons j pre ih =>
      intro i post s tr s' tr' hp hrun
      obtain ⟨s₁, o₁, o₂, h₁, h₂, rfl⟩ := run_cons_ok.mp hrun
      rw [List.cons_append] at hp
      unfold checkAlong at hp
      have hrest := (Bool.and_eq_true_iff.mp hp).2
      rw [h₁] at hrest
      rw [← List.append_assoc]
      exact ih i post s₁ (tr ++ o₁) s' o₂ hrest h₂
  rintro pre i post s tr rfl hrun
  exact hgen pre i post s₀ [] s tr h hrun

/-- **Invariants of runs.** -/
theorem run_induction {P : List ι → σ → List ω → Prop}
    (nil : P [] s₀ [])
    (snoc : ∀ is s tr i s' out, run step s₀ is = .ok (s, tr) → P is s tr →
      step s i = .ok (s', out) → P (is ++ [i]) s' (tr ++ out))
    (h : run step s₀ is = .ok (s, tr)) : P is s tr :=
  run_induction_of nil (fun is s tr i s' out h hp _ => snoc is s tr i s' out h hp)
    (allSteps_true s₀ is) h

/-- A machine whose steps do not fail from the states of an invariant. -/
theorem exists_run {P : σ → Prop} (hstep : ∀ s i, P s → ∃ s' out, step s i = .ok (s', out) ∧ P s') :
    ∀ {s : σ} (is : List ι), P s → ∃ s' tr, run step s is = .ok (s', tr) ∧ P s'
  | s, [], h => ⟨s, [], rfl, h⟩
  | s, i :: is, h => by
    obtain ⟨s₁, o₁, h₁, hp₁⟩ := hstep s i h
    obtain ⟨s₂, o₂, h₂, hp₂⟩ := exists_run hstep is hp₁
    exact ⟨s₂, o₁ ++ o₂, run_cons_ok.mpr ⟨s₁, o₁, o₂, h₁, h₂, rfl⟩, hp₂⟩

/-- **Relations between two runs** over the same items. -/
theorem run_induction₂ {α σ' ι' ω' ε' : Type*} {step' : Step σ' ι' ω' ε'} {f : α → ι} {g : α → ι'}
    {t₀ : σ'} {P : List α → σ → List ω → σ' → List ω' → Prop}
    (nil : P [] s₀ [] t₀ [])
    (snoc : ∀ as s tr t ur a s' out t' out', P as s tr t ur →
      step s (f a) = .ok (s', out) → step' t (g a) = .ok (t', out') →
      P (as ++ [a]) s' (tr ++ out) t' (ur ++ out')) :
    ∀ {as s tr t ur}, run step s₀ (as.map f) = .ok (s, tr) → run step' t₀ (as.map g) = .ok (t, ur) →
      P as s tr t ur := by
  intro as
  induction as using List.reverseRecOn with
  | nil =>
    intro s tr t ur h h'
    simp only [List.map_nil, run_nil, Except.ok.injEq, Prod.mk.injEq] at h h'
    obtain ⟨rfl, rfl⟩ := h
    obtain ⟨rfl, rfl⟩ := h'
    exact nil
  | append_singleton as a ih =>
    intro s tr t ur h h'
    rw [List.map_append, List.map_singleton] at h h'
    obtain ⟨s₁, o₁, o₂, h₁, h₂, rfl⟩ := run_snoc.mp h
    obtain ⟨t₁, u₁, u₂, h₁', h₂', rfl⟩ := run_snoc.mp h'
    exact snoc as s₁ o₁ t₁ u₁ a s o₂ t u₂ (ih h₁ h₁') h₂ h₂'

/-! ### What holds at each output -/

/-- Every output stands in the relation to those before it. -/
def AtEach (Q : List ω → ω → Prop) (tr : List ω) : Prop :=
  ∀ pre x post, tr = pre ++ x :: post → Q pre x

theorem atEach_nil {Q : List ω → ω → Prop} : AtEach Q [] := by
  intro pre x post h
  exact absurd h.symm (by simp)

/-- An output of two traces is one of the first or one of the second. -/
theorem split_append {pre post : List ω} {x : ω} (h : tr ++ out = pre ++ x :: post) :
    (∃ rest, tr = pre ++ x :: rest) ∨ ∃ l, pre = tr ++ l ∧ out = l ++ x :: post := by
  rcases List.append_eq_append_iff.mp h with ⟨l, rfl, hl⟩ | ⟨l, rfl, hl⟩
  · exact .inr ⟨l, rfl, hl⟩
  · cases l with
    | nil => exact .inr ⟨[], by simp, hl.symm⟩
    | cons y l =>
      obtain ⟨rfl, -⟩ := List.cons.inj hl
      exact .inl ⟨l, rfl⟩

theorem atEach_append {Q : List ω → ω → Prop} :
    AtEach Q (tr ++ out) ↔ AtEach Q tr ∧ AtEach (fun pre x => Q (tr ++ pre) x) out := by
  constructor
  · intro h
    refine ⟨fun pre x post heq => h pre x (post ++ out) ?_, fun pre x post heq => h (tr ++ pre) x post ?_⟩
    · rw [heq, List.append_assoc, List.cons_append]
    · rw [heq, List.append_assoc]
  · rintro ⟨htr, hout⟩ pre x post heq
    rcases split_append heq with ⟨rest, hrest⟩ | ⟨l, rfl, hl⟩
    · exact htr pre x rest hrest
    · exact hout l x post hl

theorem AtEach.of_prefix {Q : List ω → ω → Prop} {pre tr : List ω} (h : AtEach Q tr)
    (hpre : pre <+: tr) : AtEach Q pre := by
  obtain ⟨post, rfl⟩ := hpre
  exact (atEach_append.mp h).1

theorem atEach_singleton {Q : List ω → ω → Prop} {x : ω} : AtEach Q [x] ↔ Q [] x := by
  constructor
  · intro h
    exact h [] x [] rfl
  · intro h pre y post heq
    obtain ⟨rfl, heq⟩ | ⟨l, rfl, heq⟩ := List.cons_eq_append_iff.mp heq
    · obtain ⟨rfl, -⟩ := List.cons.inj heq
      exact h
    · exact absurd heq.symm (by simp)

end Richat.Lib
