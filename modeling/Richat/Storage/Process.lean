import Richat.Storage.NodeView

/-!
# Processes with their own settings

The settings of a node can change from one process to the next: the commitments that are kept on the
disk, the window of slots, the size of the rings, or whether there is a storage at all. `Process.step` is
`Node.step` with a restart that takes new settings, and `Process.run_rule` is the rule for what holds in
every process.
-/

namespace Richat

open Lib

structure Process where
  cfg : ConfigNode
  node : Node

inductive ProcessAction where
  | act (action : NodeAction)
  /-- the process dies, and the next one starts with settings of its own -/
  | restart (cfg : ConfigNode) (hasher : RandomState)

namespace Process

/-- The first process, on an empty disk. -/
def new (cfg : ConfigNode) (hasher : RandomState) : Process := ⟨cfg, .new cfg hasher⟩

def step : Step Process ProcessAction NodeEvent NodeError
  | p, .act action =>
    match Node.step p.cfg p.node action with
    | .error e => .error e
    | .ok (node, events) => .ok (⟨p.cfg, node⟩, events)
  | p, .restart cfg hasher =>
    match Node.step cfg p.node (.restart hasher) with
    | .error e => .error e
    | .ok (node, events) => .ok (⟨cfg, node⟩, events)

/-- The streams that a client can find: those between two source events, or those after some of the
effects of the next one, with what these add to the events. -/
def Reaches (p : Process) (streams : CommitmentLevel → SenderShared) (out : List NodeEvent) : Prop :=
  (streams = p.node.streams ∧ out = []) ∨
  p.node.closed = false ∧ ∃ input sender done rest,
    p.node.sender.push (Node.config p.cfg p.node.hasher) input = .ok (sender, done ++ rest) ∧
      run (Node.perform p.cfg) p.node.streams done = .ok (streams, out)

/-- **What holds in every process.** A restart may rely on what its predecessor left. -/
theorem run_rule {P : ConfigNode → Node → List NodeEvent → Prop}
    (new : ∀ cfg hasher, P cfg (.new cfg hasher) [])
    (step : ∀ cfg s events action s' out, P cfg s events → (∀ hasher, action ≠ .restart hasher) →
      Node.step cfg s action = .ok (s', out) → P cfg s' (events ++ out))
    (restart : ∀ cfg₀ cfg s events hasher s', P cfg₀ s events →
      Node.start cfg hasher s.disk s.sender.nextArc = .ok s' →
      P cfg s' (events ++ [.started s'.sender.index]))
    {cfg : ConfigNode} {hasher : RandomState} {actions : List ProcessAction} {p : Process}
    {events : List NodeEvent}
    (h : run Process.step (Process.new cfg hasher) actions = .ok (p, events)) :
    P p.cfg p.node events := by
  have hrestart : ∀ cfg₀ cfg s events hasher s' out, P cfg₀ s events →
      Node.step cfg s (.restart hasher) = .ok (s', out) → P cfg s' (events ++ out) := by
    intro cfg₀ cfg s events hasher s' out hp hstep
    simp only [Node.step] at hstep
    split at hstep
    · cases hstep
    · rename_i hstart
      cases hstep
      exact restart cfg₀ cfg s events hasher _ hp hstart
  refine run_induction (P := fun _ (p : Process) events => P p.cfg p.node events) (new cfg hasher) ?_ h
  intro actions p events action p' out _ hp hstep
  cases action with
  | act action =>
    simp only [Process.step] at hstep
    split at hstep
    · cases hstep
    · rename_i node out hnode
      cases hstep
      by_cases hkind : ∃ hasher, action = .restart hasher
      · obtain ⟨hasher, rfl⟩ := hkind
        exact hrestart p.cfg p.cfg p.node events hasher node out hp hnode
      · exact step _ _ _ _ _ _ hp (fun hasher heq => hkind ⟨hasher, heq⟩) hnode
  | restart cfg hasher =>
    simp only [Process.step] at hstep
    split at hstep
    · cases hstep
    · rename_i node out hnode
      cases hstep
      exact hrestart p.cfg cfg p.node events hasher node out hp hnode

/-- What a run reaches can be checked by evaluation. -/
theorem exists_reached {P : Process → Prop} [DecidablePred P] {cfg : ConfigNode}
    {actions : List ProcessAction}
    (h : returns (fun p _ => decide (P p)) (run Process.step (.new cfg List.length) actions) = true) :
    ∃ p events, run Process.step (.new cfg List.length) actions = .ok (p, events) ∧ P p := by
  obtain ⟨p, events, hrun, hp⟩ := exists_of_returns h
  exact ⟨p, events, hrun, of_decide_eq_true hp⟩

end Process

end Richat
