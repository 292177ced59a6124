import Richat.Lib.Crash
import Richat.Lib.Machine

/-!
# An observer beside a process

A process serves its calls operation by operation. Between any two operations an observer may take steps over the
same disk, and it is told of every operation. `Beside.invariant` is the rule for what holds in every state: an
operation has to keep it, on what the programs promise of their operations, and a step of the observer has to.

`Chained` says that a program changes the disk by its operations only.
-/

namespace Richat.Lib.Crash

variable {L D ε α β W Call O ι ω : Type} {exec : L → D → Except ε D}

/-! ### Operations in a row -/

/-- From the disk the operations lead to the last one. -/
inductive Chain (exec : L → D → Except ε D) : D → List (L × D) → D → Prop where
  | nil {d : D} : Chain exec d [] d
  | ok {l : L} {d d' last : D} {rest : List (L × D)} (hexec : exec l d = .ok d') (hrest : Chain exec d' rest last) :
    Chain exec d ((l, d) :: rest) last
  | fails {l : L} {d last : D} {e : ε} {rest : List (L × D)} (hexec : exec l d = .error e)
    (hrest : Chain exec d rest last) : Chain exec d ((l, d) :: rest) last

namespace Chain

variable {d d' last : D} {rest rest' : List (L × D)}

theorem append (h : Chain exec d rest d') (h' : Chain exec d' rest' last) : Chain exec d (rest ++ rest') last := by
  induction h with
  | nil => exact h'
  | ok hexec _ ih => exact .ok hexec (ih h')
  | fails hexec _ ih => exact .fails hexec (ih h')

/-- What every operation keeps holds of every disk. -/
theorem always {P : D → Prop} (hP : ∀ l d d', exec l d = .ok d' → P d → P d') (h : Chain exec d rest last)
    (hd : P d) : (∀ cut ∈ rest, P cut.2) ∧ P last := by
  induction h with
  | nil => exact ⟨by rintro _ ⟨⟩, hd⟩
  | ok hexec _ ih =>
    obtain ⟨hcuts, hlast⟩ := ih (hP _ _ _ hexec hd)
    exact ⟨List.forall_mem_cons.mpr ⟨hd, hcuts⟩, hlast⟩
  | fails _ _ ih =>
    obtain ⟨hcuts, hlast⟩ := ih hd
    exact ⟨List.forall_mem_cons.mpr ⟨hd, hcuts⟩, hlast⟩

end Chain

/-- A program that changes the disk by operations only. -/
def Chained (exec : L → D → Except ε D) (p : Prog L D ε α) : Prop := ∀ d, Chain exec d (p d).cuts (p d).disk

namespace Chained

variable {p : Prog L D ε α} {f : α → Prog L D ε β}

theorem pure (a : α) : Chained exec (Pure.pure a : Prog L D ε α) := fun _ => .nil

theorem get (f : D → α) : Chained exec (Prog.get f : Prog L D ε α) := fun _ => .nil

theorem fail (e : ε) : Chained exec (Prog.fail e : Prog L D ε α) := fun _ => .nil

theorem perform (exec : L → D → Except ε D) (l : L) : Chained exec (Prog.perform exec l) := by
  intro d
  unfold Prog.perform
  cases hexec : exec l d with
  | error e => exact .fails hexec .nil
  | ok d' => exact .ok hexec .nil

theorem attempt (h : Chained exec p) : Chained exec (Prog.attempt p) := h

theorem bind (h : Chained exec p) (hf : ∀ a, Chained exec (f a)) : Chained exec (p >>= f) := by
  intro d
  show Chain exec d (Prog.andThen p f d).cuts (Prog.andThen p f d).disk
  unfold Prog.andThen
  cases (p d).result with
  | error e => exact h d
  | ok a => exact (h d).append (hf a _)

end Chained

/-- What every operation and every crash keeps holds in every state of a run. -/
theorem System.Run.always {sys : System L D ε W Call} {P : D → Prop} (hstart : Chained exec sys.start)
    (hserve : ∀ w call, Chained exec (sys.serve w call)) (hP : ∀ l d d', exec l d = .ok d' → P d → P d')
    (hloses : ∀ d d', sys.loses d d' → P d → P d') {s s' : State D W} {actions : List (Action L Call)}
    (hrun : sys.Run s actions s') (hs : P s.disk) : P s'.disk := by
  induction hrun with
  | nil => exact hs
  | snoc _ hstep hs' =>
    cases hstep with
    | start => exact ((hstart _).always hP hs').2
    | serve => exact ((hserve _ _ _).always hP hs').2
    | crashStart hcut hlost => exact hloses _ _ hlost (((hstart _).always hP hs').1 _ hcut)
    | crashServe hcut hlost => exact hloses _ _ hlost (((hserve _ _ _).always hP hs').1 _ hcut)
    | crash hlost => exact hloses _ _ hlost hs'

/-! ### The observer -/

/-- Where a process is: it waits for a call, or it has operations to do. -/
inductive Thread (L D ε W : Type) where
  | waits (process : W)
  | works (rest : List (L × D)) (last : D) (result : Except ε W)

structure Beside (L D ε W O : Type) where
  disk : D
  thread : Thread L D ε W
  observer : O

inductive BesideAction (Call ι : Type) where
  | call (call : Call)
  /-- the next operation of the call -/
  | operation
  | «return»
  | observe (input : ι)

structure Observer (D O ι ω : Type) where
  /-- after an operation, on the disk that it left -/
  react : D → O → O
  step : D → O → ι → Option (O × List ω)

/-- The process and its observer. -/
def Beside.step (sys : System L D ε W Call) (observer : Observer D O ι ω) :
    Step (Beside L D ε W O) (BesideAction Call ι) ω Unit
  | s, .call call =>
    match s.thread with
    | .waits w =>
      let outcome := sys.serve w call s.disk
      .ok ({ s with thread := .works outcome.cuts outcome.disk outcome.result }, [])
    | .works .. => .error ()
  | s, .operation =>
    match s.thread with
    | .works (_ :: rest) last result =>
      let disk := rest.head?.elim last Prod.snd
      .ok (⟨disk, .works rest last result, observer.react disk s.observer⟩, [])
    | _ => .error ()
  | s, .«return» =>
    match s.thread with
    | .works [] _ (.ok w) => .ok ({ s with thread := .waits w }, [])
    | _ => .error ()
  | s, .observe input =>
    match observer.step s.disk s.observer input with
    | none => .error ()
    | some (o, out) => .ok ({ s with observer := o }, out)

namespace Beside

variable {sys : System L D ε W Call} {observer : Observer D O ι ω} {Live : W → D → Prop} {C : L → D → Prop}
  {S : D → Prop} {J : D → O → List ω → Prop}

/-- What the thread will do. -/
def Promises (exec : L → D → Except ε D) (Live : W → D → Prop) (C : L → D → Prop) (d : D) :
    Thread L D ε W → Prop
  | .waits w => Live w d
  | .works rest last result =>
    Chain exec d rest last ∧ (∀ cut ∈ rest, C cut.1 cut.2) ∧ ∃ w, result = .ok w ∧ Live w last

theorem Promises.found (hC : ∀ l d, C l d → S d) (hLive : ∀ w d, Live w d → S d) {d : D} {thread : Thread L D ε W}
    (h : Promises exec Live C d thread) : S d := by
  cases thread with
  | waits w => exact hLive w d h
  | works rest last result =>
    obtain ⟨hchain, hcuts, w, -, hlive⟩ := h
    cases hchain with
    | nil => exact hLive w d hlive
    | ok _ _ => exact hC _ _ (hcuts _ List.mem_cons_self)
    | fails _ _ => exact hC _ _ (hcuts _ List.mem_cons_self)

theorem head_of_chain {d last : D} {rest : List (L × D)} (h : Chain exec d rest last) :
    rest.head?.elim last Prod.snd = d := by
  cases h <;> rfl

/-- The rules of an invariant beside the programs. -/
structure Keeps (exec : L → D → Except ε D) (sys : System L D ε W Call) (observer : Observer D O ι ω)
    (Live : W → D → Prop) (C : L → D → Prop) (S : D → Prop) (J : D → O → List ω → Prop) : Prop where
  serve : ∀ w call d, Live w d → Meets (sys.serve w call) d C Live
  chained : ∀ w call, Chained exec (sys.serve w call)
  cut : ∀ l d, C l d → S d
  live : ∀ w d, Live w d → S d
  operation : ∀ l d d' o tr, C l d → exec l d = .ok d' → J d o tr → J d' (observer.react d' o) tr
  failure : ∀ d o tr, S d → J d o tr → J d (observer.react d o) tr
  observe : ∀ d o input o' out tr, S d → J d o tr → observer.step d o input = some (o', out) →
    J d o' (tr ++ out)

theorem Keeps.step (h : Keeps exec sys observer Live C S J) {s s' : Beside L D ε W O} {tr out : List ω}
    {action : BesideAction Call ι} (hthread : Promises exec Live C s.disk s.thread) (hs : J s.disk s.observer tr)
    (hstep : Beside.step sys observer s action = .ok (s', out)) :
    Promises exec Live C s'.disk s'.thread ∧ J s'.disk s'.observer (tr ++ out) := by
  obtain ⟨d, thread, o⟩ := s
  dsimp only at hthread hs
  cases action with
  | call call =>
    cases thread with
    | works rest last result => cases hstep
    | waits w =>
      cases hstep
      rw [List.append_nil]
      have hmeets := h.serve w call d hthread
      exact ⟨⟨h.chained w call d, fun cut hcut => hmeets.cuts cut.1 cut.2 hcut, hmeets.ends⟩, hs⟩
  | operation =>
    cases thread with
    | waits w => cases hstep
    | works rest last result =>
      cases rest with
      | nil => cases hstep
      | cons cut rest =>
        cases hstep
        obtain ⟨hchain, hcuts, hends⟩ := hthread
        have hcuts' := List.forall_mem_cons.mp hcuts
        rw [List.append_nil]
        dsimp only
        cases hchain with
        | ok hexec hrest =>
          rw [head_of_chain hrest]
          exact ⟨⟨hrest, hcuts'.2, hends⟩, h.operation _ _ _ _ _ hcuts'.1 hexec hs⟩
        | fails hexec hrest =>
          rw [head_of_chain hrest]
          exact ⟨⟨hrest, hcuts'.2, hends⟩, h.failure _ _ _ (h.cut _ _ hcuts'.1) hs⟩
  | «return» =>
    cases thread with
    | waits w => cases hstep
    | works rest last result =>
      cases rest with
      | cons cut rest => cases hstep
      | nil =>
        obtain ⟨hchain, -, w, rfl, hlive⟩ := hthread
        cases hstep
        cases hchain
        rw [List.append_nil]
        exact ⟨hlive, hs⟩
  | observe input =>
    simp only [Beside.step] at hstep
    split at hstep
    · cases hstep
    · rename_i o' out' hobserve
      cases hstep
      exact ⟨hthread, h.observe _ _ _ _ _ _ (hthread.found h.cut h.live) hs hobserve⟩

/-- **What operations and observer keep** holds in every state of a run. -/
theorem invariant (h : Keeps exec sys observer Live C S J) {d : D} {w : W} {o : O} (hlive : Live w d)
    (ho : J d o []) {actions : List (BesideAction Call ι)} {s : Beside L D ε W O} {tr : List ω}
    (hrun : run (step sys observer) ⟨d, .waits w, o⟩ actions = .ok (s, tr)) :
    S s.disk ∧ J s.disk s.observer tr := by
  have hboth : Promises exec Live C s.disk s.thread ∧ J s.disk s.observer tr := by
    refine run_induction (P := fun _ (s : Beside L D ε W O) tr =>
      Promises exec Live C s.disk s.thread ∧ J s.disk s.observer tr) ?_ ?_ hrun
    · exact ⟨hlive, ho⟩
    · intro _ s tr _ s' out _ hp hstep
      exact h.step hp.1 hp.2 hstep
  exact ⟨hboth.1.found h.cut h.live, hboth.2⟩

end Beside

end Richat.Lib.Crash
