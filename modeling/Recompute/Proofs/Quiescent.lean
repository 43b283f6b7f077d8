import Recompute.Proofs.PassSteps

set_option autoImplicit false

namespace Recompute

variable {S V : Type}

open Progress
open Relation (ReflTransGen)

namespace Graph

-- What holds of a graph that no pass works on, even if listeners gave up on its results.
structure Quiescent (version : Nat) (g : Graph V) : Prop where
  stamp : g.version = version
  idle : ∀ k, (g.node k).flight = none
  shape : g.WellFormed
  dated : ∀ k, (g.node k).verifiedAt ≤ version

variable {version : Nat} {g : Graph V}

theorem quiescent_nil : ({} : Graph V).Quiescent 0 :=
  ⟨idle_nil.stamp, idle_nil.idle, idle_nil.shape, idle_nil.dated⟩

theorem Quiescent.current (quiescent : g.Quiescent version) : g.Quiescent g.version := by
  rw [quiescent.stamp]
  exact quiescent

theorem Quiescent.advance (quiescent : g.Quiescent version) :
    g.advance.Quiescent (version + 1) where
  stamp := congrArg Nat.succ quiescent.stamp
  idle := quiescent.idle
  shape := quiescent.shape
  dated k := Nat.le_succ_of_le (quiescent.dated k)

theorem Quiescent.update (quiescent : g.Quiescent version) {k : Key} {m : Node V}
    (shape : m.WellFormed)
    (idle : m.flight = none) (dated : m.verifiedAt ≤ version) : (g.put k m).Quiescent version := by
  have node := g.put_node k m
  have each (P : Node V → Prop) (all : ∀ l, P (g.node l)) (here : P m) (l : Key) :
      P ((g.put k m).node l) := by
    rw [node]
    exact update_all all here l
  exact ⟨quiescent.stamp, each (·.flight = none) quiescent.idle idle,
    each (·.WellFormed) quiescent.shape shape,
    each (·.verifiedAt ≤ version) quiescent.dated dated⟩

theorem Quiescent.unlink (quiescent : g.Quiescent version) (k : Key) (deps : List Key) :
    (g.unlink k deps).Quiescent version := by
  have each (P : Node V → Prop) (all : ∀ l, P (g.node l))
      (unlinked : ∀ n, P n → P (n.removeDependent k)) (l : Key) : P ((g.unlink k deps).node l) := by
    rw [node_unlink]
    split
    · exact unlinked _ (all l)
    · exact all l
  exact ⟨(version_unlink g k deps).trans quiescent.stamp,
    each (·.flight = none) quiescent.idle fun _ => id,
    each (·.WellFormed) quiescent.shape fun _ shape => shape.removeDependent k,
    each (·.verifiedAt ≤ version) quiescent.dated fun _ => id⟩

theorem Quiescent.doubt (quiescent : g.Quiescent version) {k : Key} {m : Node V}
    (doubted : Doubted (g.node k) m) :
    (g.put k m).Quiescent version := by
  refine quiescent.update doubted.shape doubted.flight ?_
  rw [doubted.verifiedAt]
  exact quiescent.dated k

theorem calm_kept (version : Nat) : Spread.Kept (fun (g : Graph V) _ => g.Quiescent version) where
  skip _ _ _ _ quiescent := quiescent
  mark _ k _ finished quiescent :=
    quiescent.doubt (.suspected (quiescent.shape k) (quiescent.idle k) finished)

theorem calm_reportable (version : Nat) : Reportable (fun (g : Graph V) _ => g.Quiescent version) :=
  fun _ k _ settled quiescent =>
    quiescent.doubt (.reported (quiescent.shape k) (quiescent.idle k) settled)

theorem calm_givable [BEq V] (version : Nat) :
    Givable version (fun (g : Graph V) _ => g.Quiescent version) := by
  intro g k v todo quiescent
  obtain ⟨flight, -, -, -, -, changed⟩ := (g.node k).inject_facts v version
  have shape := (quiescent.shape k).inject (quiescent.idle k) v version
  refine (quiescent.update shape ?_ ?_).unlink k _
  · rw [flight]
    exact quiescent.idle k
  · rcases changed with ⟨-, -, -, now⟩ | ⟨-, -, -, -, -, kept⟩
    · exact Nat.le_of_eq now
    · rw [kept]
      exact quiescent.dated k

theorem Quiescent.invalidate (quiescent : g.Quiescent version) (keys : List Key) :
    (g.invalidate keys).2.2.Quiescent version :=
  invalidate_kept (calm_kept version) (calm_reportable version) g keys quiescent

theorem Quiescent.inject [BEq V] (quiescent : g.Quiescent g.version) (values : List (Key × V)) :
    (g.inject values).2.2.Quiescent (g.inject values).2.2.version := by
  cases values with
  | nil => exact quiescent
  | cons entry rest =>
    exact Quiescent.current (spread_kept (calm_kept (g.version + 1)) _ _
      (injectEach_kept (calm_givable (g.version + 1)) (entry :: rest) ⟨g.advance, [], []⟩
        quiescent.advance))

end Graph

namespace Progress

variable {version : Nat} {w : World S V} {new : List Event} {s : Progress S V}

theorem PassInvariant.node_abandon (passInv : s.PassInvariant version w new) (k : Key) :
    s.abandon.2.graph.node k = (s.graph.node k).abandon :=
  s.graph.node_abandon_of_tracked passInv.tracked k

theorem PassInvariant.abandon (passInv : s.PassInvariant version w new) :
    s.abandon.2.graph.Quiescent version where
  stamp := (s.graph.version_abandon s.enqueued).trans passInv.stamp
  idle k := passInv.node_abandon k ▸ (s.graph.node k).flight_abandon
  shape k := passInv.node_abandon k ▸ (passInv.shape k).abandon
  dated k := by
    rw [passInv.node_abandon, (passInv.shape k).abandon_facts.2.2.2.2.1]
    exact passInv.dated k

end Progress

namespace Engine

variable [BEq V] {rules : Rules S V} {listener : Listener} {e : Engine S V}

theorem Reachable.confined_pass (reachable : Reachable rules listener e)
    (confined : rules.Confined fun _ => True) (keepGoing : Bool) :
    (e.pass keepGoing).rules.Confined fun _ => True := by
  rw [← reachable.unchanged.1] at confined
  exact confined

omit [BEq V] in
theorem Quiescent.passInv (quiescent : e.world.graph.Quiescent e.world.graph.version)
    (keepGoing : Bool) :
    ({ world := e.entry } : Progress S V).PassInvariant (e.pass keepGoing).version e.entry [] :=
  .start quiescent.shape quiescent.idle quiescent.dated

theorem Reachable.quiescent (reachable : Reachable rules listener e)
    (confined : rules.Confined fun _ => True) : e.world.graph.Quiescent e.world.graph.version := by
  induction reachable with
  | new => exact Graph.quiescent_nil
  | @evaluate e budget roots keepGoing before ih =>
    obtain ⟨queue, s, evaluated⟩ := e.evaluated budget roots keepGoing
    have passInv := Quiescent.passInv ih keepGoing
    obtain ⟨new, ended⟩ :=
      (evaluated.reaches.passSteps (before.confined_pass confined keepGoing) passInv).passInv
        passInv
    rw [evaluated.graph]
    exact ended.abandon.current
  | @interrupt e h before ih => exact (World.graph_interrupt e.world h).symm ▸ ih
  | @inject e values before ih => exact (World.graph_inject e.world values).symm ▸ ih.inject values
  | @invalidate e keys before ih =>
    exact (World.graph_invalidate e.world keys).symm ▸ (ih.invalidate keys).current
  | reset before ih => exact Graph.quiescent_nil
  | outside | reorder => assumption

theorem Reachable.evaluate_passInv (reachable : Reachable rules listener e)
    (confined : rules.Confined fun _ => True) (budget : Nat) (roots : List Key) (keepGoing : Bool) :
    ∃ (s : Progress S V) (new : List Event),
      (e.pass keepGoing).PassSteps (· ∈ union [] roots) { world := e.entry } s ∧
      s.PassInvariant (e.pass keepGoing).version e.entry new ∧
      (e.evaluate budget roots keepGoing).2.world.graph = s.abandon.2.graph ∧
      (e.evaluate budget roots keepGoing).2.world.history = s.world.history := by
  obtain ⟨queue, s, evaluated⟩ := e.evaluated budget roots keepGoing
  have passInv := Quiescent.passInv (reachable.quiescent confined) keepGoing
  have steps := evaluated.reaches.passSteps (reachable.confined_pass confined keepGoing) passInv
  obtain ⟨new, ended⟩ := steps.passInv passInv
  exact ⟨s, _, steps, ended, evaluated.graph, evaluated.history⟩

end Engine

end Recompute
