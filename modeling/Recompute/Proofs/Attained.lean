import Recompute.Proofs.Consistency
import Recompute.Proofs.Stall

set_option autoImplicit false

namespace Recompute

variable {S V : Type} [BEq V]

open Progress
open Relation (ReflTransGen)

-- What can become of a graph by the calls to an engine: keys are told of and given, and passes with
-- `rules` work on it, in any order, until they are abandoned.
inductive Graph.Attained (rules : Rules S V) : Graph V → Prop
  | nil : Attained rules {}
  | invalidate {g : Graph V} (keys : List Key) :
      Attained rules g → Attained rules (g.invalidate keys).2.2
  | inject {g : Graph V} (values : List (Key × V)) :
      Attained rules g → Attained rules (g.inject values).2.2
  | pass {w : World S V} {p : Pass S V} {l : Ledger S V} (same : p.rules = rules)
      (version : p.version = w.graph.version + 1)
      (calls :
        ReflTransGen p.Calls { state := { world := { w with graph := w.graph.advance } } } l) :
      Attained rules w.graph → Attained rules l.state.abandon.2.graph

variable {p : Pass S V} {rules : Rules S V} {l l' : Ledger S V}

structure Ledger.Reasoned (p : Pass S V) (l : Ledger S V) : Prop where
  underway : l.state.GroundedRun p.version
  justified : l.state.graph.Justified p.rules fun _ => True

namespace Ledger.Reasoned

theorem goes (reasoned : l.Reasoned p) (goes : p.Goes l.state l'.state) : l'.Reasoned p where
  underway := goes.underway reasoned.underway
  justified := by
    have underway := reasoned.underway
    cases goes with
    | change change => exact change.justified underway reasoned.justified
    | enter k unfinished idle node control =>
      have same : l.state.graph.SameResults l'.state.graph :=
        Graph.sameResults_update node (.flight _ _) rfl
      exact reasoned.justified.of_sameRecords fun d => (same.result d).record
    | look w state graph =>
      rw [state]
      have same : ({ l.state with world := w } : Progress S V).graph = l.state.graph := graph
      exact same ▸ reasoned.justified

theorem all_goes (reasoned : l.Reasoned p) {s : Progress S V}
    (goes : ReflTransGen p.Goes l.state s) : ({ l with state := s } : Ledger S V).Reasoned p := by
  induction goes with
  | refl => exact reasoned
  | tail _ next ih => exact ih.goes next

theorem calls (reasoned : l.Reasoned p) (steady : p.listener.Steady)
    (confined : p.rules.Confined fun _ => True) (calls : p.Calls l l') : l'.Reasoned p := by
  obtain ⟨underway, justified⟩ :=
    reasoned.all_goes (calls.goes steady confined reasoned.underway.toRunning)
  exact ⟨underway, justified⟩

theorem all (reasoned : l.Reasoned p) (confined : p.rules.Confined fun _ => True)
    (calls : ReflTransGen p.Calls l l') : l'.Reasoned p := by
  have silent : l'.Reasoned p.silent := by
    induction calls with
    | refl => exact ⟨reasoned.underway, reasoned.justified⟩
    | tail _ call ih => exact ih.calls p.silent_steady confined call.silent
  exact ⟨silent.underway, silent.justified⟩

end Ledger.Reasoned

namespace Graph

theorem Resting.reasoned {w : World S V} (resting : w.graph.Resting)
    (justified : w.graph.Justified p.rules fun _ => True)
    (version : p.version = w.graph.version + 1) :
    ({ state := { world := { w with graph := w.graph.advance } } } : Ledger S V).Reasoned p where
  underway := version ▸ resting.underway
  justified := justified.of_sameRecords fun _ => .refl _

theorem Attained.rests {g : Graph V} (attained : g.Attained rules)
    (confined : rules.Confined fun _ => True) :
    g.Resting ∧ g.Justified rules fun _ => True := by
  induction attained with
  | nil =>
    refine ⟨resting_nil, fun k o found => ?_⟩
    simp [show ({} : Graph V).node k = {} from rfl] at found
  | invalidate keys _ ih =>
    obtain ⟨resting, justified⟩ := ih
    exact ⟨resting.invalidate keys, justified.of_sameRecords (sameRecords_invalidate _ keys)⟩
  | inject values _ ih =>
    obtain ⟨resting, justified⟩ := ih
    exact ⟨resting.inject values, justified.inject resting values⟩
  | pass same version calls _ ih =>
    subst same
    obtain ⟨resting, justified⟩ := ih
    obtain ⟨underway, justified⟩ := (resting.reasoned justified version).all confined calls
    exact ⟨underway.abandon.resting, justified.of_sameRecords underway.sameRecords_abandon⟩

end Graph

theorem Engine.Reachable.evaluate_calls {listener : Listener} {e : Engine S V}
    (reachable : Reachable rules listener e) (steady : listener.Steady)
    (confined : rules.Confined fun _ => True) (budget : Nat) (roots : List Key)
    (keepGoing : Bool) :
    ∃ queue l, ReflTransGen (e.pass keepGoing).Calls { state := { world := e.entry } } l ∧
      e.Evaluated roots keepGoing (e.evaluate budget roots keepGoing).1
        (e.evaluate budget roots keepGoing).2 queue l.state := by
  obtain ⟨queue, s, evaluated⟩ := e.evaluated budget roots keepGoing
  have resting := reachable.resting steady confined
  obtain ⟨rfl, rfl⟩ := reachable.unchanged
  have sound := resting.toIdle.sound (p := e.pass keepGoing) rfl
  obtain ⟨l, calls, rfl, -⟩ := evaluated.reaches.drives steady confined sound
  exact ⟨queue, l, calls, evaluated⟩

theorem Engine.Reachable.attained {listener : Listener} {e : Engine S V}
    (reachable : Reachable rules listener e) (steady : listener.Steady)
    (confined : rules.Confined fun _ => True) : e.world.graph.Attained rules := by
  induction reachable with
  | new => exact .nil
  | @evaluate e budget roots keepGoing before ih =>
    obtain ⟨queue, l, calls, evaluated⟩ := before.evaluate_calls steady confined budget roots keepGoing
    obtain ⟨rfl, rfl⟩ := before.unchanged
    rw [evaluated.graph]
    exact .pass rfl rfl calls ih
  | @interrupt e h _ ih => exact (World.graph_interrupt e.world h).symm ▸ ih
  | @inject e values _ ih => exact (World.graph_inject e.world values).symm ▸ ih.inject values
  | @invalidate e keys _ ih =>
    exact (World.graph_invalidate e.world keys).symm ▸ ih.invalidate keys
  | reset => exact .nil
  | outside | reorder => assumption

end Recompute
