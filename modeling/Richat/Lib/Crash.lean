import Mathlib.Tactic

/-!
# Programs that a crash may cut

A program changes a disk by operations, one after another, and fails where one of them fails. Its outcome
keeps every operation with the disk that the operation found, which is where a crash may come.

`Meets` is what a program promises: it succeeds, how it ends, and what every one of its operations finds. Its
rules follow the program. A `System` is a process over a disk that starts, serves calls and may crash at any
operation, and `Run.invariant` is the rule for what holds in every state of its runs.
-/

namespace Richat.Lib.Crash

variable {L D ε α β W Call : Type}

/-! ### Programs -/

/-- What a program does from a disk. -/
structure Outcome (L D ε α : Type) where
  /-- its operations, each with the disk that it found -/
  cuts : List (L × D)
  disk : D
  result : Except ε α

def Prog (L D ε α : Type) := D → Outcome L D ε α

namespace Prog

def ret (a : α) : Prog L D ε α := fun d => ⟨[], d, .ok a⟩

def andThen (p : Prog L D ε α) (f : α → Prog L D ε β) : Prog L D ε β := fun d =>
  match (p d).result with
  | .error e => ⟨(p d).cuts, (p d).disk, .error e⟩
  | .ok a => ⟨(p d).cuts ++ (f a (p d).disk).cuts, (f a (p d).disk).disk, (f a (p d).disk).result⟩

instance : Monad (Prog L D ε) where
  pure := ret
  bind := andThen

/-- A value that the disk has. -/
def get (f : D → α) : Prog L D ε α := fun d => ⟨[], d, .ok (f d)⟩

def fail (e : ε) : Prog L D ε α := fun d => ⟨[], d, .error e⟩

/-- A failure is given to the program that goes on. -/
def attempt (p : Prog L D ε α) : Prog L D ε (Except ε α) := fun d =>
  ⟨(p d).cuts, (p d).disk, .ok (p d).result⟩

/-- One operation. -/
def perform (exec : L → D → Except ε D) (l : L) : Prog L D ε Unit := fun d =>
  match exec l d with
  | .error e => ⟨[(l, d)], d, .error e⟩
  | .ok d' => ⟨[(l, d)], d', .ok ()⟩

end Prog

theorem Prog.perform_bind_eq {exec : L → D → Except ε D} {l : L} {d d' : D} (h : exec l d = .ok d')
    (f : Unit → Prog L D ε β) : (Prog.perform exec l >>= f) d =
      ⟨(l, d) :: (f () d').cuts, (f () d').disk, (f () d').result⟩ := by
  show Prog.andThen _ f d = _
  unfold Prog.andThen Prog.perform
  rw [h]
  rfl

/-- The operation that a program begins with. -/
theorem Prog.mem_cuts_perform_bind (exec : L → D → Except ε D) (l : L) (d : D) (f : Unit → Prog L D ε β) :
    (l, d) ∈ ((Prog.perform exec l >>= f) d).cuts := by
  cases h : exec l d with
  | error e =>
    show (l, d) ∈ (Prog.andThen _ f d).cuts
    unfold Prog.andThen Prog.perform
    rw [h]
    exact List.mem_singleton.mpr rfl
  | ok d' =>
    rw [perform_bind_eq h]
    exact List.mem_cons_self

/-! ### What a program promises -/

/-- From the disk the program succeeds as `Q` says, and each of its operations finds a disk as `C` says. -/
structure Meets (p : Prog L D ε α) (d : D) (C : L → D → Prop) (Q : α → D → Prop) : Prop where
  cuts : ∀ l d', (l, d') ∈ (p d).cuts → C l d'
  ends : ∃ a, (p d).result = .ok a ∧ Q a (p d).disk

namespace Meets

variable {p : Prog L D ε α} {f : α → Prog L D ε β} {exec : L → D → Except ε D} {d d' : D} {l : L}
  {a : α} {C C' : L → D → Prop} {Q Q' : α → D → Prop} {R : β → D → Prop}

theorem pure (h : Q a d) : Meets (Pure.pure a : Prog L D ε α) d C Q where
  cuts := fun _ _ h => absurd h List.not_mem_nil
  ends := ⟨a, rfl, h⟩

theorem get {g : D → α} (h : Q (g d) d) : Meets (Prog.get g : Prog L D ε α) d C Q where
  cuts := fun _ _ h => absurd h List.not_mem_nil
  ends := ⟨g d, rfl, h⟩

theorem perform {R : Unit → D → Prop} (hcut : C l d) (hexec : exec l d = .ok d') (h : R () d') :
    Meets (Prog.perform exec l) d C R := by
  have houtcome : Prog.perform exec l d = ⟨[(l, d)], d', .ok ()⟩ := by
    unfold Prog.perform
    rw [hexec]
  constructor
  · rw [houtcome]
    intro l' d₁ hmem
    obtain ⟨rfl, rfl⟩ := Prod.mk.inj (List.mem_singleton.mp hmem)
    exact hcut
  · rw [houtcome]
    exact ⟨(), rfl, h⟩

theorem attempt {R : Except ε Unit → D → Prop} (hcut : C l d)
    (hok : ∀ d', exec l d = .ok d' → R (.ok ()) d')
    (herror : ∀ e, exec l d = .error e → R (.error e) d) :
    Meets (Prog.attempt (Prog.perform exec l)) d C R := by
  unfold Prog.attempt Prog.perform
  constructor
  · intro l' d₁ hmem
    have hmem : (l', d₁) ∈ [(l, d)] := by
      dsimp only at hmem
      split at hmem <;> exact hmem
    obtain ⟨rfl, rfl⟩ := Prod.mk.inj (List.mem_singleton.mp hmem)
    exact hcut
  · dsimp only
    cases hexec : exec l d with
    | error e => exact ⟨.error e, rfl, herror e hexec⟩
    | ok d' => exact ⟨.ok (), rfl, hok d' hexec⟩

theorem mono (h : Meets p d C Q) (hcuts : ∀ l d, C l d → C' l d) (hends : ∀ a d, Q a d → Q' a d) :
    Meets p d C' Q' := by
  obtain ⟨a, hresult, hq⟩ := h.ends
  exact ⟨fun l d' hmem => hcuts l d' (h.cuts l d' hmem), a, hresult, hends a _ hq⟩

theorem andThen_eq (h : (p d).result = .ok a) : (p >>= f) d =
    ⟨(p d).cuts ++ (f a (p d).disk).cuts, (f a (p d).disk).disk, (f a (p d).disk).result⟩ := by
  show Prog.andThen p f d = _
  unfold Prog.andThen
  rw [h]

theorem bind (h : Meets p d C Q) (hnext : ∀ a d', Q a d' → Meets (f a) d' C R) : Meets (p >>= f) d C R := by
  obtain ⟨a, hresult, hq⟩ := h.ends
  have hf := hnext a _ hq
  constructor
  · rw [andThen_eq hresult]
    intro l d' hmem
    rcases List.mem_append.mp hmem with hmem | hmem
    · exact h.cuts l d' hmem
    · exact hf.cuts l d' hmem
  · rw [andThen_eq hresult]
    exact hf.ends

/-- A program that reads the disk first. -/
theorem get_bind {g : D → α} (h : Meets (f (g d)) d C R) : Meets (Prog.get g >>= f) d C R :=
  (get (Q := fun a d' => a = g d ∧ d' = d) ⟨rfl, rfl⟩).bind fun _ _ ⟨ha, hd⟩ => by rw [ha, hd]; exact h

/-- A program that begins with an operation. -/
theorem perform_bind {f : Unit → Prog L D ε β} (hcut : C l d) (hexec : exec l d = .ok d')
    (h : Meets (f ()) d' C R) : Meets (Prog.perform exec l >>= f) d C R :=
  (perform (R := fun _ d₁ => d₁ = d') hcut hexec rfl).bind fun _ _ hd => by rw [hd]; exact h

/-- What a program does after one that succeeds. -/
theorem exists_bind (h : Meets p d C Q) (f : α → Prog L D ε β) : ∃ a d', Q a d' ∧
    (p >>= f) d = ⟨(p d).cuts ++ (f a d').cuts, (f a d').disk, (f a d').result⟩ := by
  obtain ⟨a, hresult, hq⟩ := h.ends
  exact ⟨a, _, hq, andThen_eq hresult⟩

end Meets

/-! ### A process over a disk -/

/-- How a process starts, what it does on a call, and what may be left of a disk after a crash. -/
structure System (L D ε W Call : Type) where
  start : Prog L D ε W
  serve : W → Call → Prog L D ε W
  loses : D → D → Prop

/-- The disk, and the process if there is one. -/
structure State (D W : Type) where
  disk : D
  process : Option W

/-- The actions of a run. A crash comes before an operation, or while the process waits. -/
inductive Action (L Call : Type) where
  | start
  | serve (call : Call)
  | crashStart (operation : L)
  | crashServe (call : Call) (operation : L)
  | crash

namespace Action

/-- A crash before an operation is one that the condition allows. -/
def Allowed (ok : L → Prop) : Action L Call → Prop
  | start | serve _ | crash => True
  | crashStart l | crashServe _ l => ok l

end Action

variable {sys : System L D ε W Call}

/-- A process that fails is gone. -/
inductive System.Step (sys : System L D ε W Call) : State D W → Action L Call → State D W → Prop where
  | start {d : D} :
    Step sys ⟨d, none⟩ .start ⟨(sys.start d).disk, (sys.start d).result.toOption⟩
  | serve {d : D} {w : W} {call : Call} :
    Step sys ⟨d, some w⟩ (.serve call) ⟨(sys.serve w call d).disk, (sys.serve w call d).result.toOption⟩
  | crashStart {d d₁ d₂ : D} {l : L} (hcut : (l, d₁) ∈ (sys.start d).cuts) (hloses : sys.loses d₁ d₂) :
    Step sys ⟨d, none⟩ (.crashStart l) ⟨d₂, none⟩
  | crashServe {d d₁ d₂ : D} {w : W} {call : Call} {l : L} (hcut : (l, d₁) ∈ (sys.serve w call d).cuts)
    (hloses : sys.loses d₁ d₂) : Step sys ⟨d, some w⟩ (.crashServe call l) ⟨d₂, none⟩
  | crash {d d' : D} {process : Option W} (hloses : sys.loses d d') :
    Step sys ⟨d, process⟩ .crash ⟨d', none⟩

inductive System.Run (sys : System L D ε W Call) : State D W → List (Action L Call) → State D W → Prop where
  | nil {s : State D W} : Run sys s [] s
  | snoc {s s' s'' : State D W} {actions : List (Action L Call)} {action : Action L Call}
    (hrun : Run sys s actions s') (hstep : sys.Step s' action s'') : Run sys s (actions ++ [action]) s''

/-- A start that succeeds. -/
theorem System.Run.start {s : State D W} {actions : List (Action L Call)} {d : D} {C : L → D → Prop}
    {Q : W → D → Prop} (hrun : sys.Run s actions ⟨d, none⟩) (h : Meets sys.start d C Q) :
    ∃ w d', sys.Run s (actions ++ [.start]) ⟨d', some w⟩ ∧ Q w d' := by
  obtain ⟨w, hresult, hq⟩ := h.ends
  have hstep : sys.Step ⟨d, none⟩ .start ⟨(sys.start d).disk, (sys.start d).result.toOption⟩ := .start
  rw [hresult] at hstep
  exact ⟨w, _, hrun.snoc hstep, hq⟩

/-- A call that succeeds. -/
theorem System.Run.serve {s : State D W} {actions : List (Action L Call)} {d : D} {w : W} {C : L → D → Prop}
    {Q : W → D → Prop} (hrun : sys.Run s actions ⟨d, some w⟩) (call : Call)
    (h : Meets (sys.serve w call) d C Q) :
    ∃ w' d', sys.Run s (actions ++ [.serve call]) ⟨d', some w'⟩ ∧ Q w' d' := by
  obtain ⟨w', hresult, hq⟩ := h.ends
  have hstep : sys.Step ⟨d, some w⟩ (.serve call)
      ⟨(sys.serve w call d).disk, (sys.serve w call d).result.toOption⟩ := .serve
  rw [hresult] at hstep
  exact ⟨w', _, hrun.snoc hstep, hq⟩

/-- What holds of the disk without a process, and of the disk and the process. -/
def State.Holds (Idle : D → Prop) (Live : W → D → Prop) (s : State D W) : Prop :=
  match s.process with
  | none => Idle s.disk
  | some w => Live w s.disk

/-- What the system does next has the operation, on the disk. -/
def System.Finds (sys : System L D ε W Call) (s : State D W) (l : L) (d : D) : Prop :=
  match s.process with
  | none => (l, d) ∈ (sys.start s.disk).cuts
  | some w => ∃ call, (l, d) ∈ (sys.serve w call s.disk).cuts

section Invariant

variable {Idle : D → Prop} {Live : W → D → Prop} {C : L → D → Prop} {ok : L → Prop}

/-- The invariants of a system: the programs promise them, and a crash leaves what is needed to start. -/
structure Invariant (sys : System L D ε W Call) (Idle : D → Prop) (Live : W → D → Prop)
    (C : L → D → Prop) (ok : L → Prop) : Prop where
  start : ∀ d, Idle d → Meets sys.start d C Live
  serve : ∀ w call d, Live w d → Meets (sys.serve w call) d C Live
  cut : ∀ l d d', C l d → ok l → sys.loses d d' → Idle d'
  lost : ∀ d d', Idle d → sys.loses d d' → Idle d'
  rests : ∀ w d, Live w d → Idle d

theorem Meets.holds {p : Prog L D ε W} {d : D} (h : Meets p d C Live) :
    State.Holds Idle Live ⟨(p d).disk, (p d).result.toOption⟩ := by
  obtain ⟨w, hresult, hlive⟩ := h.ends
  rw [hresult]
  exact hlive

theorem Invariant.step (h : Invariant sys Idle Live C ok) {s s' : State D W} {action : Action L Call}
    (hs : s.Holds Idle Live) (hstep : sys.Step s action s') (hallowed : action.Allowed ok) :
    s'.Holds Idle Live := by
  cases hstep with
  | start => exact (h.start _ hs).holds
  | serve => exact (h.serve _ _ _ hs).holds
  | crashStart hcut hloses => exact h.cut _ _ _ ((h.start _ hs).cuts _ _ hcut) hallowed hloses
  | crashServe hcut hloses => exact h.cut _ _ _ ((h.serve _ _ _ hs).cuts _ _ hcut) hallowed hloses
  | @crash d d' process hloses =>
    cases process with
    | none => exact h.lost _ _ hs hloses
    | some w => exact h.lost _ _ (h.rests _ _ hs) hloses

/-- What a system keeps holds in every state of a run whose crashes are allowed. -/
theorem Invariant.run (h : Invariant sys Idle Live C ok) {s s' : State D W} {actions : List (Action L Call)}
    (hs : s.Holds Idle Live) (hrun : sys.Run s actions s') (hallowed : ∀ a ∈ actions, a.Allowed ok) :
    s'.Holds Idle Live := by
  induction hrun with
  | nil => exact hs
  | snoc _ hstep ih =>
    exact h.step (ih fun a ha => hallowed a (List.mem_append_left _ ha)) hstep
      (hallowed _ (List.mem_append_right _ (List.mem_singleton.mpr rfl)))

theorem Invariant.finds (h : Invariant sys Idle Live C ok) {s : State D W} {l : L} {d : D}
    (hs : s.Holds Idle Live) (hfinds : sys.Finds s l d) : C l d := by
  obtain ⟨disk, _ | w⟩ := s
  · exact (h.start _ hs).cuts _ _ hfinds
  · obtain ⟨call, hmem⟩ := hfinds
    exact (h.serve _ _ _ hs).cuts _ _ hmem

end Invariant

end Richat.Lib.Crash
