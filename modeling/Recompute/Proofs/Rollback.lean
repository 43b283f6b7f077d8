import Recompute.Proofs.Quiescent

set_option autoImplicit false

namespace Recompute

variable {S V : Type}

open Progress
open Relation (ReflTransGen)

namespace Node

theorem WellFormed.sameResult_abandon {n : Node V} (shape : n.WellFormed) :
    SameResult n n.abandon := by
  obtain ⟨cached, deps, -, version, verifiedAt, injected, finished, -⟩ := shape.abandon_facts
  have join (d : Dirty) (some : d ≠ .clean) : d.join .suspect = d := by
    cases d <;> simp_all [Dirty.join]
  refine ⟨cached, ?_, deps, version, verifiedAt, injected, finished⟩
  unfold Node.abandon
  split
  next => rfl
  next f flight none => exact (shape.unbuilt none).2.1.symm
  next f v flight cached =>
    exact join _ (shape.flying (by simp [isInFlight, flight]) (by simp [cached]))
  next f e flight cached =>
    exact join _ (shape.flying (by simp [isInFlight, flight]) (by simp [cached]))

theorem starts_abandon (n : Node V) : n.abandon.starts = n.starts := by
  unfold Node.abandon
  split <;> rfl

theorem abandon_eq {n m : Node V} (same : SameResult n m) (shape : n.WellFormed)
    (idle : n.flight = none) (shape' : m.WellFormed) :
    m.abandon = { n with starts := m.starts, dependents := m.dependents } := by
  have result := same.trans shape'.sameResult_abandon
  have status : m.abandon.status = n.status := by
    rw [shape'.abandon.status_eq m.flight_abandon, shape.status_eq idle, result.cached]
  have starts := m.starts_abandon
  have dependents := shape'.abandon_facts.2.2.1
  have flight := m.flight_abandon.trans idle.symm
  obtain ⟨cached, dirty, deps, version, verifiedAt, injected, -⟩ := result
  generalize m.abandon = l at *
  obtain ⟨⟩ := l
  simp_all

end Node

structure World.Undone (w w' : World S V) : Prop where
  idle : ∀ k, (w'.graph.node k).flight = none
  restored : ∀ k, Event.endings (w.since w') k = [] → ∃ starts dependents,
    w'.graph.node k = { w.graph.node k with starts, dependents } ∧
      (w.graph.node k).starts ≤ starts ∧
      dependents.filter (Event.endings (w.since w') · = []) =
        (w.graph.node k).dependents.filter (Event.endings (w.since w') · = [])
  new : ∀ k, Event.endings (w.since w') k = [] → w.graph.get? k = none →
    (w'.graph.node k).status = .fresh ∧ (w'.graph.node k).dirty = .clean ∧
      (w'.graph.node k).cached = none ∧ (w'.graph.node k).deps = []

namespace Progress

variable {version : Nat} {w w₀ w' : World S V} {new : List Event} {s : Progress S V}

theorem PassInvariant.undone (passInv : s.PassInvariant version w new)
    (quiescent : w₀.graph.Quiescent w₀.graph.version)
    (node : w.graph.node = w₀.graph.node) (history : w.history = w₀.history)
    (graph : w'.graph = s.abandon.2.graph) (told : w'.history = s.world.history) :
    w₀.Undone w' := by
  have since : w₀.since w' = w.since s.world := by
    rw [World.since, World.since, told, history]
  have endings (k : Key) : Event.endings (w₀.since w') k = Event.endings new k := by
    rw [since, passInv.logs.endings]
  have restored (k : Key) (none : Event.endings new k = []) :
      w'.graph.node k = { w₀.graph.node k with
        starts := (s.graph.node k).starts, dependents := (s.graph.node k).dependents } := by
    rw [graph, passInv.node_abandon]
    exact Node.abandon_eq (node ▸ passInv.kept k none) (quiescent.shape k) (quiescent.idle k)
      (passInv.shape k)
  constructor
  case idle =>
    intro k
    rw [graph, passInv.node_abandon]
    exact (s.graph.node k).flight_abandon
  case restored =>
    intro k none
    simp only [endings] at none ⊢
    exact ⟨_, _, restored k none, node ▸ passInv.starts k, node ▸ passInv.dependents k⟩
  case new =>
    intro k none unknown
    rw [endings] at none
    have fresh : w₀.graph.node k = {} := by simp [Graph.node, unknown]
    rw [restored k none, fresh]
    exact ⟨rfl, rfl, rfl, rfl⟩

end Progress

namespace Engine

variable [BEq V] {rules : Rules S V} {listener : Listener} {e : Engine S V}

-- However an evaluation ends, and in whatever order and up to whatever point the work of its pass
-- is done until then, it undoes what it did not finish.
theorem Reachable.evaluate_undoes (reachable : Reachable rules listener e)
    (confined : rules.Confined fun _ => True) (roots : List Key) (keepGoing : Bool) :
    (∀ budget, e.world.Undone (e.evaluate budget roots keepGoing).2.world) ∧
      ∀ l, ReflTransGen (e.pass keepGoing).Calls { state := { world := e.entry } } l →
        e.world.Undone l.state.abandon.2.world := by
  have quiescent := reachable.quiescent confined
  refine ⟨fun budget => ?_, fun l calls => ?_⟩
  · obtain ⟨s, new, -, passInv, graph, history⟩ :=
      reachable.evaluate_passInv confined budget roots keepGoing
    exact passInv.undone quiescent rfl rfl graph history
  · have begun := Quiescent.passInv quiescent keepGoing
    have steps := Pass.calls_passSteps (reachable.confined_pass confined keepGoing) calls begun
    obtain ⟨new, passInv⟩ := steps.passInv begun
    exact passInv.undone quiescent rfl rfl rfl rfl

theorem evaluate_undoes_detour :
    let b : Key := .only "b"
    let e' := (detour.evaluate 2 [.only "a"] true).2
    (detour.world.graph.node b).starts = 1 ∧ (e'.world.graph.node b).starts = 2 ∧
      Event.restarts (detour.world.since e'.world) b = [[.only "a"]] ∧
      (e'.world.graph.node b).status = (detour.world.graph.node b).status ∧
      (e'.world.graph.node b).deps = (detour.world.graph.node b).deps := by
  intro b e'
  have undone := (reachable_detour.evaluate_undoes (Rules.confined_detour _) [.only "a"] true).1 2
  obtain ⟨starts, dependents, same, -⟩ := undone.restored b (by decide +kernel)
  refine ⟨by decide +kernel, by decide +kernel, by decide +kernel, ?_, ?_⟩
  · simp only [e', same]
  · simp only [e', same]

end Engine

end Recompute
