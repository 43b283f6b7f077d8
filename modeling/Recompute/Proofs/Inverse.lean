import Recompute.Proofs.Ledger

set_option autoImplicit false

namespace Recompute

variable {S V : Type} [BEq V]

open Progress
open Relation (ReflTransGen)

namespace Engine

variable {rules : Rules S V} {listener : Listener} {e : Engine S V}

-- Who has read a key is listed among its dependents, and nobody else, between passes and between
-- any two calls on a pass. That somebody waits for a key is not listed there.
theorem Reachable.dependents_iff_read (reachable : Reachable rules listener e)
    (steady : listener.Steady) (confined : rules.Confined fun _ => True) :
    (∀ k d, k ∈ (e.world.graph.node d).dependents ↔ d ∈ (e.world.graph.node k).deps.flatten) ∧
      ∀ keepGoing l,
        ReflTransGen (e.pass keepGoing).Calls { state := { world := e.entry } } l →
        (∀ k d, k ∈ (l.state.graph.node d).dependents ↔
          d ∈ (l.state.graph.node k).deps.flatten) ∧
        ∀ k, (l.state.graph.node k).isInFlight = true →
          (l.state.graph.node k).deps = (e.world.graph.node k).deps ∧
            ∀ d, k ∈ (l.state.graph.node d).dependents ↔ k ∈ (e.world.graph.node d).dependents := by
  obtain ⟨rfl, rfl⟩ := reachable.unchanged
  have resting := reachable.resting steady confined
  refine ⟨resting.linked, fun keepGoing l calls => ?_⟩
  have start : Ledger.Sound (e.pass keepGoing) e.world.graph { state := { world := e.entry } } :=
    resting.toIdle.sound rfl
  have sound := start.all confined calls
  refine ⟨sound.running.linked, fun k inFlight => ?_⟩
  obtain ⟨f, flight⟩ := Option.isSome_iff_exists.mp inFlight
  have kept := sound.kept k ((sound.running.shape k).unfinished_of_flight flight)
  refine ⟨kept.deps, fun d => ?_⟩
  rw [sound.running.linked, kept.deps, resting.linked]

theorem dependents_iff_read_detour :
    let a : Key := .only "a"
    let b : Key := .only "b"
    let e := ((new Rules.detour .steady ()).inject [(.only "c", 0)]).2
    ∃ l, ReflTransGen (e.pass true).Calls { state := { world := e.entry } } l ∧
      b ∈ (l.state.graph.node a).awaits ∧ a ∈ (l.state.graph.node b).waiters ∧
      a ∉ (l.state.graph.node b).dependents := by
  intro a b e
  have reachable : Reachable Rules.detour .steady e := .inject _ (.new ())
  have calls : ReflTransGen (e.pass true).Calls { state := { world := e.entry } } _ :=
    (ReflTransGen.single (.root _ a (yields_settle (by decide +kernel) false))).tail
      (.run _ a (yields_settle (by decide +kernel) []))
  have inverse :=
    (reachable.dependents_iff_read (fun _ => rfl) (Rules.confined_detour _)).2 true _ calls
  refine ⟨_, calls, by decide +kernel, by decide +kernel, ?_⟩
  rw [(inverse.2 a (by decide +kernel)).2 b]
  decide +kernel

end Engine

end Recompute
